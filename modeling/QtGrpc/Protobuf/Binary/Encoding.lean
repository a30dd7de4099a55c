import QtGrpc.Protobuf.Binary.Wire

/-!
# Writing scalars onto the wire

The writers of single values, of lists and of field headers, and that the readers take back what
they wrote, whatever follows it.
-/

namespace QtGrpc.Protobuf.Binary

/-- The loop of `serializeVarintCommonImpl`; ten groups of seven bits hold any value. -/
def varintGroups : Nat → BitVec 64 → Bytes
  | 0, _ => []
  | n + 1, value =>
    if value = 0 then []
    else ((⟨value.setWidth 8⟩ &&& 0x7f) ||| 0x80) :: varintGroups n (value >>> 7)

/-- The last byte loses its mark. -/
def unmarkLast : Bytes → Bytes
  | [] => []
  | [byte] => [byte &&& 0x7f]
  | byte :: bytes => byte :: unmarkLast bytes

/-- `serializeVarintCommonImpl`. -/
def serializeVarintCommon (value : BitVec 64) : Bytes :=
  if value = 0 then [0] else unmarkLast (varintGroups 10 value)

/-- `prependLengthDelimitedSize`. -/
def prependLengthDelimitedSize (data : Bytes) : Bytes :=
  serializeVarintCommon (BitVec.ofNat 64 data.length) ++ data

/-- The zig-zag encoding of a signed number. -/
def zigZagEncode {w : Nat} (value : BitVec w) : BitVec w :=
  (value <<< 1) ^^^ value.sshiftRight (w - 1)

/-- The number a scalar type is written as if it is written as a varint. -/
def toVarint : (k : ScalarKind) → k.Carrier → BitVec 64
  | .int32, v => BitVec.signExtend 64 v
  | .uint32, v => BitVec.setWidth 64 v
  | .int64, v | .uint64, v => v
  | .sint32, v => BitVec.setWidth 64 (zigZagEncode v)
  | .sint64, v => zigZagEncode v
  | .boolean, v => (BitVec.ofBool v).setWidth 64
  | _, _ => 0

/-- The bytes of a scalar type that is written as it lies in memory. -/
def toFixed : (k : ScalarKind) → k.Carrier → Bytes
  | .fixed32, v | .sfixed32, v | .float, v => ByteOrder.toLittleEndian 4 (BitVec.toNat (w := 32) v)
  | .fixed64, v | .sfixed64, v | .double, v => ByteOrder.toLittleEndian 8 (BitVec.toNat (w := 64) v)
  | _, _ => []

/-- The bytes of a length-delimited scalar type. -/
def toDelimited : (k : ScalarKind) → k.Carrier → Bytes
  | .string, v => toUtf8 v
  | .bytes, v => v
  | _, _ => []

/-- `serializeBasic`. -/
def serializeBasic (k : ScalarKind) (v : k.Carrier) : Bytes :=
  match k.wireType with
  | .varint => serializeVarintCommon (toVarint k v)
  | .fixed32 | .fixed64 => toFixed k v
  | .lengthDelimited => prependLengthDelimitedSize (toDelimited k v)

/-- `serializeListType`. -/
def serializeListType (k : ScalarKind) (vs : List k.Carrier) : Bytes :=
  if vs.isEmpty then [] else prependLengthDelimitedSize (vs.flatMap (serializeBasic k))

/-- `serializeNonPackedList`. -/
def serializeNonPackedList (k : ScalarKind) (vs : List k.Carrier) (header : Bytes) : Bytes :=
  vs.flatMap fun v => header ++ serializeBasic k v

/-- `encodeHeader`. -/
def encodeHeader (fieldNumber : Nat) (wireType : WireType) : Bytes :=
  serializeVarintCommon (BitVec.ofNat 64 ((fieldNumber * 8 + wireType.number) % 2 ^ 32))

/-! ## What the readers make of it -/

/-- The seven bits and the mark of a byte do not mix. -/
theorem marked_byte (byte : UInt8) :
    continues ((byte &&& 0x7f) ||| 0x80) = true ∧ continues (byte &&& 0x7f) = false ∧
      ((byte &&& 0x7f) ||| 0x80) &&& 0x7f = byte &&& 0x7f := by
  have hbits : ∀ bits : BitVec 8,
      continues ((⟨bits⟩ &&& 0x7f) ||| 0x80) = true ∧ continues (⟨bits⟩ &&& 0x7f) = false ∧
        ((⟨bits⟩ &&& 0x7f) ||| 0x80) &&& 0x7f = (⟨bits⟩ &&& 0x7f : UInt8) := by
    decide +kernel
  exact hbits byte.toBitVec

/-- The seven bits that a group takes from the number. -/
theorem toNat_group (value : BitVec 64) :
    ((⟨value.setWidth 8⟩ : UInt8) &&& 0x7f).toNat = value.toNat % 128 := by
  rw [UInt8.toNat_and, show (0x7f : UInt8).toNat = 2 ^ 7 - 1 from rfl,
    Nat.and_two_pow_sub_one_eq_mod]
  have hwidth : (⟨value.setWidth 8⟩ : UInt8).toNat = value.toNat % 2 ^ 8 :=
    BitVec.toNat_setWidth 8 value
  omega

/-- What a byte contributes to the number that is read. -/
theorem shiftByte_eq (env : Environment) (byte : UInt8) {k : Nat} (hk : k < 64) :
    shiftByte env byte k = BitVec.ofNat 64 ((byte &&& 0x7f).toNat * 2 ^ k) := by
  have hbyte := (byte &&& 0x7f).toNat_lt
  apply BitVec.eq_of_toNat_eq
  rw [shiftByte, if_pos hk, BitVec.toNat_shiftLeft, BitVec.toNat_setWidth, BitVec.toNat_ofNat,
    Nat.shiftLeft_eq, UInt8.toNat_toBitVec,
    Nat.mod_eq_of_lt (a := (byte &&& 0x7f).toNat) (by omega)]

/-- The groups of a number are read back, whatever follows them. -/
theorem varintLoop_groups (env : Environment) (n k : Nat) (read value : BitVec 64) (rest : Bytes)
    (hvalue : value ≠ 0) (hgroups : value.toNat < 128 ^ n) (hshift : value.toNat * 2 ^ k < 2 ^ 64) :
    varintLoop env k read (unmarkLast (varintGroups n value) ++ rest) =
      ((unmarkLast (varintGroups n value)).length,
        some (read + BitVec.ofNat 64 (value.toNat * 2 ^ k))) := by
  induction n generalizing k read value with
  | zero =>
    have hzero : value.toNat = 0 := by simpa using hgroups
    exact absurd (BitVec.eq_of_toNat_eq hzero) hvalue
  | succ n ih =>
    have hpos : 0 < value.toNat := by
      rw [Nat.pos_iff_ne_zero]
      exact fun h => hvalue (BitVec.eq_of_toNat_eq h)
    have hk : k < 64 := by
      by_contra hk
      have hpow : 2 ^ 64 ≤ 2 ^ k := Nat.pow_le_pow_right (by omega) (by omega)
      have hle : 2 ^ k ≤ value.toNat * 2 ^ k := Nat.le_mul_of_pos_left _ hpos
      omega
    obtain ⟨hmarked, hunmarked, hbits⟩ := marked_byte ⟨value.setWidth 8⟩
    have hgroup := toNat_group value
    have hnext : (value >>> 7).toNat = value.toNat / 128 := by
      rw [BitVec.toNat_ushiftRight, Nat.shiftRight_eq_div_pow]
    rw [varintGroups, if_neg hvalue]
    by_cases hlast : value >>> 7 = 0
    · have hsmall : value.toNat < 128 := by
        rw [hlast] at hnext
        simp at hnext
        omega
      have hnil : varintGroups n (value >>> 7) = [] := by
        cases n <;> simp [varintGroups, hlast]
      rw [hnil, unmarkLast, hbits, List.singleton_append, varintLoop, hunmarked,
        shiftByte_eq env _ hk]
      simp only [UInt8.and_assoc, UInt8.and_self, hgroup, Nat.mod_eq_of_lt hsmall, Bool.false_eq_true,
        if_false, List.length_singleton]
    · have hdiv := Nat.div_add_mod value.toNat 128
      have hsplit : value.toNat * 2 ^ k =
          value.toNat % 128 * 2 ^ k + value.toNat / 128 * 2 ^ (k + 7) := by
        conv_lhs => rw [← hdiv]
        ring
      have hfewer : value.toNat / 128 < 128 ^ n := by
        rw [pow_succ] at hgroups
        omega
      have hmore : unmarkLast (((⟨value.setWidth 8⟩ &&& 0x7f) ||| 0x80) ::
          varintGroups n (value >>> 7)) = ((⟨value.setWidth 8⟩ &&& 0x7f) ||| 0x80) ::
            unmarkLast (varintGroups n (value >>> 7)) := by
        cases n with
        | zero =>
          have hzero : value.toNat / 128 = 0 := by simpa using hfewer
          exact absurd (BitVec.eq_of_toNat_eq (by rw [hnext, hzero]; rfl)) hlast
        | succ n =>
          rw [varintGroups, if_neg hlast, unmarkLast]
          simp
      have hread := ih (k + 7) (read + BitVec.ofNat 64 (value.toNat % 128 * 2 ^ k)) (value >>> 7)
        hlast (by rwa [hnext]) (by rw [hnext]; omega)
      rw [hmore, List.cons_append, varintLoop, hmarked, shiftByte_eq env _ hk, hbits, hgroup,
        hread, hnext]
      simp only [if_true, List.length_cons]
      rw [BitVec.add_assoc, ← BitVec.ofNat_add, ← hsplit]

/-- A number is read back from its varint, whatever follows it. -/
theorem varintLoop_serializeVarintCommon (env : Environment) (value : BitVec 64) (rest : Bytes) :
    varintLoop env 0 0 (serializeVarintCommon value ++ rest) =
      ((serializeVarintCommon value).length, some value) := by
  unfold serializeVarintCommon
  split
  · rename_i hzero
    subst hzero
    rw [List.singleton_append, varintLoop, shiftByte_eq env _ (by omega)]
    rfl
  · rename_i hvalue
    have hlt := value.isLt
    rw [varintLoop_groups env 10 0 0 value rest hvalue (by omega) (by omega)]
    simp

/-- The sign of a number fills the word. -/
theorem sshiftRight_sign {w : Nat} (value : BitVec w) :
    value.sshiftRight (w - 1) = if value.msb then BitVec.allOnes w else 0 := by
  ext i hi
  rw [BitVec.getElem_sshiftRight]
  cases hmsb : value.msb <;> simp
  all_goals
    intro h
    obtain rfl : i = 0 := by omega
    rw [BitVec.msb_eq_getLsbD_last] at hmsb
    rwa [← BitVec.getLsbD_eq_getElem, Nat.add_zero]

/-- The zigzag coding gives every value back. -/
theorem zigZagDecode_zigZagEncode {w : Nat} (hw : 1 < w) (value : BitVec w) :
    zigZagDecode (zigZagEncode value) = value := by
  rw [zigZagEncode, sshiftRight_sign]
  cases hmsb : value.msb
  · have hlow : (value <<< 1 ^^^ 0) &&& 1 = 0 := by
      ext i hi
      simp [BitVec.getElem_one]
      omega
    simp only [zigZagDecode, Bool.false_eq_true, if_false, hlow]
    ext i hi
    rw [BitVec.msb_eq_getLsbD_last] at hmsb
    by_cases hlast : i = w - 1
    · subst hlast
      simp [← BitVec.getLsbD_eq_getElem, hmsb]
    · have hbefore : 1 + i < w := by omega
      simp [hbefore, BitVec.getLsbD_eq_getElem]
  · have hlow : (value <<< 1 ^^^ BitVec.allOnes w) &&& 1 = 1 := by
      ext i hi
      simp [BitVec.getElem_one]
      intro h
      simp [h]
    simp only [zigZagDecode, if_true, hlow]
    ext i hi
    rw [BitVec.msb_eq_getLsbD_last] at hmsb
    by_cases hlast : i = w - 1
    · subst hlast
      simp [← BitVec.getLsbD_eq_getElem, hmsb, BitVec.neg_one_eq_allOnes]
      omega
    · have hbefore : 1 + i < w := by omega
      simp [hbefore, BitVec.getLsbD_eq_getElem, BitVec.neg_one_eq_allOnes]

/-- An enumerator or a signed number of 32 bits survives its extension to 64 bits. -/
theorem setWidth_signExtend (value : BitVec 32) :
    BitVec.setWidth 32 (BitVec.signExtend 64 value) = value := by
  ext i hi
  rw [BitVec.getElem_setWidth, BitVec.getLsbD_signExtend, if_pos hi, BitVec.getLsbD_eq_getElem hi]
  have hi' : i < 64 := by omega
  simp [hi']

/-- A scalar is read back from its varint. -/
theorem ofVarint_toVarint (k : ScalarKind) (hk : k.wireType = .varint) (v : k.Carrier) :
    ofVarint k (toVarint k v) = v := by
  cases k <;> cases hk
  case int32 => exact setWidth_signExtend v
  case int64 => rfl
  case uint32 => exact BitVec.setWidth_setWidth_of_le v (by omega)
  case uint64 => rfl
  case sint32 =>
    change zigZagDecode (BitVec.setWidth 32 (BitVec.setWidth 64 (zigZagEncode (w := 32) v))) = v
    rw [BitVec.setWidth_setWidth_of_le _ (by omega), BitVec.setWidth_eq]
    exact zigZagDecode_zigZagEncode (by omega) v
  case sint64 => exact zigZagDecode_zigZagEncode (w := 64) (by omega) v
  case boolean => cases v <;> rfl

/-- A scalar is read back from its fixed word. -/
theorem ofFixed_toFixed (k : ScalarKind) (hk : k.wireType = .fixed32 ∨ k.wireType = .fixed64)
    (v : k.Carrier) :
    ofFixed k (toFixed k v) = v := by
  have h32 (v : BitVec 32) :
      BitVec.ofNat 32 (ByteOrder.ofLittleEndian (ByteOrder.toLittleEndian 4 v.toNat)) = v := by
    have hlt := v.isLt
    rw [ByteOrder.ofLittleEndian_toLittleEndian, Nat.mod_eq_of_lt (by omega), BitVec.ofNat_toNat,
      BitVec.setWidth_eq]
  have h64 (v : BitVec 64) :
      BitVec.ofNat 64 (ByteOrder.ofLittleEndian (ByteOrder.toLittleEndian 8 v.toNat)) = v := by
    have hlt := v.isLt
    rw [ByteOrder.ofLittleEndian_toLittleEndian, Nat.mod_eq_of_lt (by omega), BitVec.ofNat_toNat,
      BitVec.setWidth_eq]
  cases k
  case fixed32 => exact h32 v
  case sfixed32 => exact h32 v
  case float => exact h32 v
  case fixed64 => exact h64 v
  case sfixed64 => exact h64 v
  case double => exact h64 v
  all_goals simp [ScalarKind.wireType] at hk

/-- A string loses the mark it may start with. -/
theorem ofDelimited_toDelimited (env : Environment) (k : ScalarKind)
    (hk : k.wireType = .lengthDelimited) (v : k.Carrier) :
    ofDelimited env k (toDelimited k v) = k.unmarked v := by
  cases k <;> cases hk
  case string => exact env.fromUtf8_toUtf8 v
  case bytes => rfl

end QtGrpc.Protobuf.Binary
