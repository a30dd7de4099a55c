import QtGrpc.Protobuf.Binary.Progress

/-!
# What the binary decoder accepts

An accepted input was consumed as a sequence of well-formed fields: a header, then a payload of
the extent its wire type has, down to the payloads of sub-messages, map entries and packed lists.
Two kinds of fields are taken without looking at their wire type, and one kind of length leads
backwards; the inputs that reach none of these are consumed that way, and no others are.
-/

namespace QtGrpc.Protobuf.Binary

variable (env : Environment) (S : Schema) (data : Bytes)

/-- A varint lies between two positions. -/
def VarintAt (p q : Nat) (value : BitVec 64) : Prop :=
  deserializeVarintCommon env ⟨data, p⟩ = (⟨data, q⟩, some value)

/-- A header lies between two positions. -/
def HeaderAt (p q fieldNumber : Nat) (wireType : WireType) : Prop :=
  decodeHeader env ⟨data, p⟩ = (⟨data, q⟩, some (fieldNumber, wireType))

/-- A payload of the extent of its wire type lies between two positions. -/
inductive Payload : WireType → Nat → Nat → Prop where
  | varint {p q : Nat} {value : BitVec 64} (h : VarintAt env data p q value) : Payload .varint p q
  | fixed32 {p : Nat} (h : p + 4 ≤ data.length) : Payload .fixed32 p (p + 4)
  | fixed64 {p : Nat} (h : p + 8 ≤ data.length) : Payload .fixed64 p (p + 8)
  | lengthDelimited {p q : Nat} {length : BitVec 64} (h : VarintAt env data p q length)
      (hq : q + length.toNat ≤ data.length) : Payload .lengthDelimited p (q + length.toNat)

/-- Payloads of one wire type fill the bytes between two positions. -/
inductive Elements (w : WireType) : Nat → Nat → Prop where
  | nil (p : Nat) : Elements w p p
  | cons {p q r : Nat} (h : Payload env data w p q) (rest : Elements w q r) : Elements w p r

/-- The payload of a field that is not a message is of the wire type of the field. -/
inductive Content : PropertyType → WireType → Nat → Nat → Prop where
  | scalar {k : ScalarKind} {p q : Nat} (h : Payload env data k.wireType p q) :
      Content (.scalar k) k.wireType p q
  | element {k : ScalarKind} {p q : Nat} (h : Payload env data k.wireType p q) :
      Content (.list k) k.wireType p q
  | packed {k : ScalarKind} {p q : Nat} {length : BitVec 64} (h : VarintAt env data p q length)
      (helements : Elements env data k.wireType q (q + length.toNat)) :
      Content (.list k) .lengthDelimited p (q + length.toNat)
  | enumerator {e p q : Nat} (h : Payload env data .varint p q) : Content (.enum e) .varint p q
  | enumElement {e p q : Nat} (h : Payload env data .varint p q) :
      Content (.enumList e) .varint p q
  | enumPacked {e p q : Nat} {length : BitVec 64} (h : VarintAt env data p q length)
      (helements : Elements env data .varint q (q + length.toNat)) :
      Content (.enumList e) .lengthDelimited p (q + length.toNat)

/-- The type of the message in the payload of a field. -/
def contentType (type : PropertyType) : Option MessageType :=
  match type with
  | .custom h _ => (S.findHandler h).map (·.proxy)
  | type => type.nestedType

/-- The visits that consume the bytes between two positions as fields of a message. -/
inductive Consumed : MessageType → Nat → Nat → List Visit → Prop where
  | nil (t : MessageType) (p : Nat) : Consumed t p p []
  | unknown {t : MessageType} {p h q e n : Nat} {w : WireType} {visits : List Visit}
      (header : HeaderAt env data p h n w)
      (hindex : (S.propertyOrdering t).indexOfFieldNumber n = none)
      (payload : Payload env data w h q) (rest : Consumed t q e visits) :
      Consumed t p e (⟨t, ⟨data, p⟩, ⟨data, h⟩, n, w⟩ :: visits)
  | scalar {t : MessageType} {p h q e n i : Nat} {w : WireType} {f : FieldInfo}
      {visits : List Visit} (header : HeaderAt env data p h n w)
      (hindex : (S.propertyOrdering t).indexOfFieldNumber n = some i)
      (hfield : (S.propertyOrdering t).fields[i]? = some f)
      (content : Content env data f.type w h q) (rest : Consumed t q e visits) :
      Consumed t p e (⟨t, ⟨data, p⟩, ⟨data, h⟩, n, w⟩ :: visits)
  | message {t t' : MessageType} {p h q e n i : Nat} {f : FieldInfo} {length : BitVec 64}
      {inner visits : List Visit} (header : HeaderAt env data p h n .lengthDelimited)
      (hindex : (S.propertyOrdering t).indexOfFieldNumber n = some i)
      (hfield : (S.propertyOrdering t).fields[i]? = some f)
      (htype : contentType S f.type = some t')
      (hlength : VarintAt env data h q length)
      (content : Consumed t' q (q + length.toNat) inner)
      (rest : Consumed t (q + length.toNat) e visits) :
      Consumed t p e (⟨t, ⟨data, p⟩, ⟨data, h⟩, n, .lengthDelimited⟩ :: (inner ++ visits))

/-- The field is unknown and no length leads back, or it is known and has a wire type its kind of
payload is read from. -/
structure Visit.Regular (v : Visit) : Prop where
  unknown : v.IsUnknown S → v.wireType = .lengthDelimited →
    ∀ it length, deserializeVarintCommon env v.payload = (it, some length) → length.toNat < 2 ^ 63
  message : ∀ i f, (S.propertyOrdering v.messageType).indexOfFieldNumber v.fieldNumber = some i →
    (S.propertyOrdering v.messageType).fields[i]? = some f → f.type.isMessage →
      v.wireType = .lengthDelimited
  enum : ∀ i f e, (S.propertyOrdering v.messageType).indexOfFieldNumber v.fieldNumber = some i →
    (S.propertyOrdering v.messageType).fields[i]? = some f → f.type = .enum e →
      v.wireType = .varint

section

variable {env S data}

/-- A varint has a byte. -/
theorem VarintAt.lt {p q : Nat} {value : BitVec 64} (h : VarintAt env data p q value) : p < q := by
  have := deserializeVarintCommon_position_lt h
  simpa using this

/-- A payload does not lead back. -/
theorem Payload.le {w : WireType} {p q : Nat} (h : Payload env data w p q) : p ≤ q := by
  cases h with
  | varint h => exact h.lt.le
  | fixed32 => omega
  | fixed64 => omega
  | lengthDelimited h =>
    have := h.lt
    omega

/-- Nor does one of a field. -/
theorem Content.le {type : PropertyType} {w : WireType} {p q : Nat}
    (h : Content env data type w p q) : p ≤ q := by
  cases h with
  | scalar h | element h | enumerator h | enumElement h => exact h.le
  | packed h | enumPacked h =>
    have := h.lt
    omega

/-- A header is a varint. -/
theorem HeaderAt.varint {p q n : Nat} {w : WireType} (h : HeaderAt env data p q n w) :
    ∃ value, VarintAt env data p q value := (decodeHeader_varint env h).2

/-- It has a byte, too. -/
theorem HeaderAt.lt {p q n : Nat} {w : WireType} (h : HeaderAt env data p q n w) : p < q := by
  obtain ⟨value, hvarint⟩ := h.varint
  exact hvarint.lt

/-- The iterator never moves backwards. -/
theorem Consumed.le {t : MessageType} {p e : Nat} {visits : List Visit}
    (h : Consumed env S data t p e visits) : p ≤ e := by
  induction h with
  | nil => exact le_refl _
  | unknown header hindex payload rest ih =>
    have := header.lt
    have := payload.le
    omega
  | scalar header hindex hfield content rest ih =>
    have := header.lt
    have := content.le
    omega
  | message header hindex hfield htype hlength content rest ihcontent ih =>
    have := header.lt
    have := hlength.lt
    omega

/-- Every visit starts within the message it belongs to. -/
theorem Consumed.bounds {t : MessageType} {p e : Nat} {visits : List Visit}
    (h : Consumed env S data t p e visits) :
    ∀ v ∈ visits, (p : Int) ≤ v.fieldBegin.position ∧ v.fieldBegin.position < e := by
  induction h with
  | nil => simp
  | unknown header hindex payload rest ih =>
    have := header.lt
    have := payload.le
    have := rest.le
    simp only [List.forall_mem_cons]
    refine ⟨⟨le_refl _, by omega⟩, fun v hv => ?_⟩
    have := ih v hv
    omega
  | scalar header hindex hfield content rest ih =>
    have := header.lt
    have := content.le
    have := rest.le
    simp only [List.forall_mem_cons]
    refine ⟨⟨le_refl _, by omega⟩, fun v hv => ?_⟩
    have := ih v hv
    omega
  | message header hindex hfield htype hlength content rest ihcontent ih =>
    have := header.lt
    have := hlength.lt
    have := rest.le
    simp only [List.forall_mem_cons, List.mem_append]
    refine ⟨⟨le_refl _, by omega⟩, fun v hv => ?_⟩
    rcases hv with hv | hv
    · have := ihcontent v hv
      omega
    · have := ih v hv
      omega

/-- The visits come in the order of the input. -/
theorem Consumed.pairwise {t : MessageType} {p e : Nat} {visits : List Visit}
    (h : Consumed env S data t p e visits) :
    visits.Pairwise fun v v' => v.fieldBegin.position < v'.fieldBegin.position := by
  induction h with
  | nil => exact .nil
  | unknown header hindex payload rest ih =>
    have := header.lt
    have := payload.le
    refine List.pairwise_cons.mpr ⟨fun v hv => ?_, ih⟩
    have := rest.bounds v hv
    simp only
    omega
  | scalar header hindex hfield content rest ih =>
    have := header.lt
    have := content.le
    refine List.pairwise_cons.mpr ⟨fun v hv => ?_, ih⟩
    have := rest.bounds v hv
    simp only
    omega
  | message header hindex hfield htype hlength content rest ihcontent ih =>
    have := header.lt
    have := hlength.lt
    refine List.pairwise_cons.mpr ⟨fun v hv => ?_, List.pairwise_append.mpr ⟨ihcontent, ih, ?_⟩⟩
    · rcases List.mem_append.mp hv with hv | hv
      · have := content.bounds v hv
        simp only
        omega
      · have := rest.bounds v hv
        simp only
        omega
    · intro v hv v' hv'
      have := content.bounds v hv
      have := rest.bounds v' hv'
      omega

/-- Fields that follow one another are consumed together. -/
theorem Consumed.append {t : MessageType} {p q e : Nat} {visits visits' : List Visit}
    (h : Consumed env S data t p q visits) (h' : Consumed env S data t q e visits') :
    Consumed env S data t p e (visits ++ visits') := by
  induction h with
  | nil => exact h'
  | unknown header hindex payload _ ih => exact .unknown header hindex payload (ih h')
  | scalar header hindex hfield content _ ih => exact .scalar header hindex hfield content (ih h')
  | message header hindex hfield htype hlength content _ _ ih =>
    rw [List.cons_append, List.append_assoc]
    exact .message header hindex hfield htype hlength content (ih h')

/-- The payload of a message is described by its fields. -/
theorem Content.not_isMessage {type : PropertyType} {w : WireType} {p q : Nat}
    (h : Content env data type w p q) : type.isMessage = false := by
  cases h <;> rfl

/-- An enumeration is a varint. -/
theorem Content.wireType_of_enum {w : WireType} {e p q : Nat}
    (h : Content env data (.enum e) w p q) : w = .varint := by
  cases h
  rfl

/-- What has a message as its payload is of message type. -/
theorem contentType_isMessage {type : PropertyType} {t : MessageType}
    (h : contentType S type = some t) : type.isMessage := by
  cases type <;> simp_all [contentType, PropertyType.nestedType, PropertyType.isMessage]

/-- Whatever was consumed as well-formed fields was regular. -/
theorem Consumed.regular (hsize : data.length < 2 ^ 63) {t : MessageType} {p e : Nat}
    {visits : List Visit} (h : Consumed env S data t p e visits) :
    ∀ v ∈ visits, v.Regular env S := by
  induction h with
  | nil => simp
  | unknown header hindex payload rest ih =>
    refine List.forall_mem_cons.mpr ⟨⟨fun _ hwire it length hvarint => ?_, ?_, ?_⟩, ih⟩
    · simp only at hwire
      subst hwire
      cases payload with
      | lengthDelimited hlength hq =>
        rw [show deserializeVarintCommon env _ = _ from hlength] at hvarint
        cases hvarint
        omega
    · simp [hindex]
    · simp [hindex]
  | scalar header hindex hfield content rest ih =>
    refine List.forall_mem_cons.mpr ⟨⟨?_, fun i f hi hf hmessage => ?_, fun i f e hi hf he => ?_⟩,
      ih⟩
    · simp [Visit.IsUnknown, hindex]
    · simp only [hindex, Option.some.injEq] at hi
      subst hi
      simp only [hfield, Option.some.injEq] at hf
      subst hf
      simp [content.not_isMessage] at hmessage
    · simp only [hindex, Option.some.injEq] at hi
      subst hi
      simp only [hfield, Option.some.injEq] at hf
      subst hf
      rw [he] at content
      exact content.wireType_of_enum
  | message header hindex hfield htype hlength content rest ihcontent ih =>
    refine List.forall_mem_cons.mpr ⟨⟨?_, fun i f hi hf _ => rfl, fun i f e hi hf he => ?_⟩, ?_⟩
    · simp [Visit.IsUnknown, hindex]
    · simp only [hindex, Option.some.injEq] at hi
      subst hi
      simp only [hfield, Option.some.injEq] at hf
      subst hf
      have := contentType_isMessage htype
      simp [he, PropertyType.isMessage] at this
    · intro v hv
      rcases List.mem_append.mp hv with hv | hv
      · exact ihcontent v hv
      · exact ih v hv

end

end QtGrpc.Protobuf.Binary
