import QtGrpc.Protobuf.Binary.Reading
import QtGrpc.Protobuf.Binary.Serializer

/-!
# What the encoder writes

The output of the encoder as the fields it consists of. The encoder appends the fields of a message
one property after the other; a sub-message becomes a field whose content is what was written for it
followed by the entries that were kept of unknown fields.
-/

namespace QtGrpc.Protobuf.Binary

/-- A field with one value. -/
def scalarField (fieldNumber : Nat) (k : ScalarKind) (v : k.Carrier) : WireField :=
  ⟨fieldNumber, k.wireType, encodeHeader fieldNumber k.wireType, serializeBasic k v⟩

/-- A field with a packed list. -/
def packedListField (fieldNumber : Nat) (k : ScalarKind) (vs : List k.Carrier) : WireField :=
  ⟨fieldNumber, .lengthDelimited, encodeHeader fieldNumber .lengthDelimited, serializeListType k vs⟩

/-- A field with a message. The length is converted to 32 bits. -/
def messageField (fieldNumber : Nat) (content : Bytes) : WireField :=
  ⟨fieldNumber, .lengthDelimited, encodeHeader fieldNumber .lengthDelimited,
    serializeVarintCommon (BitVec.ofNat 64 (content.length % 2 ^ 32)) ++ content⟩

/-- The fields of a property of scalar or list type. -/
def integratedFields (value : Value) (nonPacked : Bool) (fieldNumber : Nat) :
    Option (List WireField) :=
  match value with
  | .scalar ⟨k, v⟩ => if nonPacked then none else some [scalarField fieldNumber k v]
  | .scalars k vs =>
    if nonPacked && k.isLengthDelimited then none
    else if nonPacked || k.isLengthDelimited then some (vs.map (scalarField fieldNumber k))
    else some [packedListField fieldNumber k vs]
  | _ => none

/-- What is written of them. -/
def scalarFields (f : FieldInfo) (value : Value) : Option (List WireField) :=
  (integratedFields value f.fieldFlags.nonPacked f.fieldNumber).map fun xs =>
    if !integratedIsPresent value && !mustSerializeDefaultValue f.fieldFlags then [] else xs

/-- What is written of a property of enumeration type. -/
def enumFields (f : FieldInfo) (value : Value) : List WireField :=
  if f.fieldFlags.repeated then
    match value with
    | .enumerators _ vs =>
      let listValue := vs.map (BitVec.signExtend 64)
      if listValue.isEmpty then []
      else if f.fieldFlags.nonPacked then listValue.map (scalarField f.fieldNumber .int64)
      else [packedListField f.fieldNumber .int64 listValue]
    | _ => []
  else
    match value with
    | .enumerator _ v =>
      let number : BitVec 64 := BitVec.signExtend 64 v
      if !ScalarKind.isPresent .int64 number && !mustSerializeDefaultValue f.fieldFlags then []
      else [scalarField f.fieldNumber .int64 number]
    | _ => []

/-- The states of the entry object while a map is written through it. -/
def entryObjects : Message → List (Scalar × Value) → List Message
  | _, [] => []
  | entry, (key, value) :: entries =>
    entry.nextEntry key value :: entryObjects (entry.nextEntry key value) entries

section

variable (S : Schema) (order : HashOrder) (keep : Bool)

/-- The entries that follow the fields of a message. -/
def unknownBytes (m : Message) : Bytes :=
  if keep then (order.unknownEntries m.unknownEntries).flatMap fun (_, fields) => fields.flatten
  else []

/-- A message becomes a field of its own. -/
def WritesMessage
    (written : List Nat → MessageType → Message → List WireField → Prop) (types : List Nat)
    (f : FieldInfo) (t : MessageType) (m : Message) (x : WireField) : Prop :=
  ∃ xs, written types t m xs ∧
    x = messageField f.fieldNumber (xs.flatMap WireField.bytes ++ unknownBytes order keep m)

/-- What is written of a property that is neither a message nor a list or a map of messages. -/
def WritesPlain (writes : MessageType → Message → WireField → Prop) (f : FieldInfo) (value : Value)
    (xs : List WireField) : Prop :=
  if f.fieldFlags.isEnum then xs = enumFields f value
  else match scalarFields f value with
  | some fields => xs = fields
  | none =>
    match S.handlerOf f.type, value with
    | some handler, .custom _ content =>
      List.Forall₂ (writes handler.proxy) (handler.objects content) xs
    | _, _ => xs = []

/-- What is written of a property within some default messages. -/
def WritesProperty
    (writes : List Nat → FieldInfo → MessageType → Message → WireField → Prop) (types : List Nat)
    (f : FieldInfo) (value : Value) (xs : List WireField) : Prop :=
  match f.type, value with
  | .message t, .null =>
    if f.fieldFlags.required ∧ t ∉ types then
      ∃ x, xs = [x] ∧ writes (types ++ [t]) f (.named t) (S.defaultMessage (.named t)) x
    else xs = []
  | _, .null => xs = []
  | _, .message t m => ∃ x, xs = [x] ∧ writes types f (.named t) m x
  | _, .messages t ms => List.Forall₂ (writes types f (.named t)) ms xs
  | .hash key value, .hash entries =>
    List.Forall₂ (writes types f (.mapEntry key value))
      (entryObjects (S.defaultMessage (.mapEntry key value)) (order.entries entries)) xs
  | _, value => WritesPlain S (writes types f) f value xs

/-- The fields that are written for a message within some default messages, without the unknown
ones. -/
def Written : Nat → List Nat → MessageType → Message → List WireField → Prop
  | 0, _, _, _, _ => False
  | fuel + 1, types, t, m, xs =>
    ∃ parts, xs = List.flatten parts ∧
      List.Forall₂
        (fun (p : FieldInfo × Nat) part =>
          WritesProperty S order (WritesMessage order keep (Written fuel)) types p.1
            (m.messageProperty p.2 p.1) part)
        (S.propertyOrdering t).fields.zipIdx parts

end

/-! ## The encoder appends these fields -/

/-- Some fields were appended to the result. -/
structure Appends (x y : SerializerBase SerializerImpl) (xs : List WireField) : Prop where
  result : y.state.result = x.state.result ++ xs.flatMap WireField.bytes
  state : y.state.state = x.state.state
  types : y.defaultMessageTypes = x.defaultMessageTypes

/-- A step that writes nothing appends no field. -/
theorem Appends.refl (x : SerializerBase SerializerImpl) : Appends x x [] :=
  ⟨by simp, rfl, rfl⟩

/-- What two steps append stands one behind the other. -/
theorem Appends.trans {x y z : SerializerBase SerializerImpl} {xs ys : List WireField}
    (h : Appends x y xs) (h' : Appends y z ys) : Appends x z (xs ++ ys) :=
  ⟨by rw [h'.result, h.result, List.flatMap_append, List.append_assoc], h'.state.trans h.state,
    h'.types.trans h.types⟩

/-- Writing the bytes of fields appends those fields. -/
theorem appends_append (x : SerializerBase SerializerImpl) (xs : List WireField) :
    Appends x { x with state := x.state.append (xs.flatMap WireField.bytes) } xs :=
  ⟨rfl, rfl, rfl⟩

/-- What each step appends, a loop appends in turn. -/
theorem foldlM_appends {α : Type} {types : List Nat} {W : α → List WireField → Prop}
    {write : SerializerBase SerializerImpl → α → Option (SerializerBase SerializerImpl)}
    (hwrite : ∀ x a y, x.defaultMessageTypes = types → write x a = some y →
      ∃ xs, W a xs ∧ Appends x y xs)
    (l : List α) {x y : SerializerBase SerializerImpl} (hx : x.defaultMessageTypes = types)
    (h : l.foldlM write x = some y) :
    ∃ parts, List.Forall₂ W l parts ∧ Appends x y parts.flatten := by
  induction l generalizing x with
  | nil =>
    cases h
    exact ⟨[], .nil, .refl _⟩
  | cons a l ih =>
    rw [List.foldlM_cons] at h
    obtain ⟨z, hz, hrest⟩ := Option.bind_eq_some_iff.mp h
    obtain ⟨xs, hxs, happends⟩ := hwrite x a z hx hz
    obtain ⟨parts, hparts, hrest⟩ := ih (happends.types.trans hx) hrest
    exact ⟨xs :: parts, .cons hxs hparts, happends.trans hrest⟩

/-- Parts of one field each. -/
theorem forall₂_singleton {α : Type} {W : α → WireField → Prop} {l : List α}
    {parts : List (List WireField)}
    (h : List.Forall₂ (fun a part => ∃ x, part = [x] ∧ W a x) l parts) :
    List.Forall₂ W l parts.flatten := by
  induction h with
  | nil => exact .nil
  | cons ha _ ih =>
    obtain ⟨x, rfl, hx⟩ := ha
    exact .cons hx ih

/-- The entries of a map append one field each. -/
theorem serializeEntries_appends {types : List Nat} {W : Message → WireField → Prop}
    {write : Message → SerializerBase SerializerImpl → Option (SerializerBase SerializerImpl)}
    (hwrite : ∀ m x y, x.defaultMessageTypes = types → write m x = some y →
      ∃ z, W m z ∧ Appends x y [z])
    (entries : List (Scalar × Value)) {entry : Message} {x y : SerializerBase SerializerImpl}
    (hx : x.defaultMessageTypes = types) (h : serializeEntries write entry entries x = some y) :
    ∃ xs, List.Forall₂ W (entryObjects entry entries) xs ∧ Appends x y xs := by
  induction entries generalizing entry x with
  | nil =>
    cases h
    exact ⟨[], .nil, .refl _⟩
  | cons e entries ih =>
    obtain ⟨y', hy', hrest⟩ := Option.bind_eq_some_iff.mp h
    obtain ⟨z, hz, happends⟩ := hwrite _ x y' hx hy'
    obtain ⟨xs, hxs, hrest⟩ := ih (happends.types.trans hx) hrest
    exact ⟨z :: xs, .cons hz hxs, happends.trans hrest⟩

/-- The fields of an unpacked list are its items, each behind the header. -/
theorem flatMap_scalarField (n : Nat) (k : ScalarKind) (vs : List k.Carrier) :
    (vs.map (scalarField n k)).flatMap WireField.bytes =
      serializeNonPackedList k vs (encodeHeader n k.wireType) := by
  rw [List.flatMap_map]
  rfl

/-- The serializers of scalar types and lists append their fields. -/
theorem integratedSerializer_eq (value : Value) (nonPacked : Bool) (n : Nat) :
    integratedSerializer value nonPacked n =
      (integratedFields value nonPacked n).map fun xs => xs.flatMap WireField.bytes := by
  cases value with
  | scalar v =>
    obtain ⟨k, v⟩ := v
    cases nonPacked <;> simp [integratedSerializer, integratedFields, scalarField, WireField.bytes]
  | scalars k vs =>
    cases hk : k.isLengthDelimited with
    | true =>
      have hwire : k.wireType = .lengthDelimited := by
        cases k <;> simp_all [ScalarKind.isLengthDelimited, ScalarKind.wireType]
      cases nonPacked <;>
        simp [integratedSerializer, integratedFields, hk, ← hwire, flatMap_scalarField]
    | false =>
      cases nonPacked <;> simp [integratedSerializer, integratedFields, hk, flatMap_scalarField,
        packedListField, WireField.bytes]
  | _ => rfl

/-- A scalar property is written as its fields. -/
theorem serializeScalarField_eq (f : FieldInfo) (value : Value) (s : SerializerImpl) :
    serializeScalarField f value s = match scalarFields f value with
      | none => (s, false)
      | some xs => (s.append (xs.flatMap WireField.bytes), true) := by
  unfold serializeScalarField scalarFields
  rw [integratedSerializer_eq]
  cases integratedFields value f.fieldFlags.nonPacked f.fieldNumber with
  | none => rfl
  | some xs =>
    simp only [Option.map_some]
    split <;> simp [SerializerImpl.append]

/-- An enumerator is written as its fields. -/
theorem serializeEnum_eq (f : FieldInfo) (value : Value) (s : SerializerImpl) :
    (serializeEnum f value s).1 = s.append ((enumFields f value).flatMap WireField.bytes) := by
  unfold serializeEnum enumFields
  split
  · cases value with
    | enumerators e vs =>
      simp only
      split
      · simp [SerializerImpl.append]
      · split
        · exact (congrArg s.append (flatMap_scalarField f.fieldNumber .int64 _)).symm
        · simp [packedListField, WireField.bytes]
    | _ => simp [SerializerImpl.append]
  · cases value with
    | enumerator e v =>
      simp only
      split
      · simp [SerializerImpl.append]
      · simp [scalarField, WireField.bytes, ScalarKind.wireType]
    | _ => simp [SerializerImpl.append]

section

variable {S : Schema} {order : HashOrder} {keep : Bool}

/-- The unknown fields are written as their bytes. -/
theorem unknownBytes_eq (m : Message) (s : SerializerImpl) :
    serializeUnknownFields order keep m s = s.append (unknownBytes order keep m) := by
  unfold serializeUnknownFields unknownBytes
  cases keep <;> simp [SerializerImpl.append]

/-- A property is written as some fields. -/
theorem serializeProperty_appends
    {nested : MessageType → Message → FieldInfo → SerializerBase SerializerImpl →
      Option (SerializerBase SerializerImpl)}
    {writes : List Nat → FieldInfo → MessageType → Message → WireField → Prop}
    (hnested : ∀ t m f x y, nested t m f x = some y →
      ∃ z, writes x.defaultMessageTypes f t m z ∧ Appends x y [z])
    {f : FieldInfo} {value : Value} {x y : SerializerBase SerializerImpl}
    (h : serializeProperty (serializerFormat order keep) S order nested f value x = some y) :
    ∃ xs, WritesProperty S order writes x.defaultMessageTypes f value xs ∧ Appends x y xs := by
  unfold serializeProperty at h
  split at h
  · rename_i t htype
    simp only [WritesProperty, htype]
    split at h
    · rename_i hrequired
      unfold serializeDefaultMessageField at h
      split at h
      · rename_i hmem
        cases h
        exact ⟨[], by simp [hmem], .refl x⟩
      · rename_i hmem
        obtain ⟨z, hz, rfl⟩ := Option.map_eq_some_iff.mp h
        obtain ⟨w, hw, happends⟩ := hnested _ _ _ _ _ hz
        refine ⟨[w], by simp [hrequired, hmem, hw], happends.result, happends.state, ?_⟩
        have htypes : z.defaultMessageTypes = x.defaultMessageTypes ++ [t] := happends.types
        simp only [htypes, List.dropLast_concat]
    · rename_i hrequired
      cases h
      exact ⟨[], by simp [hrequired], .refl x⟩
  · cases h
    exact ⟨[], by unfold WritesProperty; split <;> simp_all, .refl x⟩
  · rename_i t m
    obtain ⟨z, hz, happends⟩ := hnested _ _ _ _ _ h
    exact ⟨[z], by unfold WritesProperty; cases f.type <;> exact ⟨z, rfl, hz⟩, happends⟩
  · rename_i t ms
    obtain ⟨parts, hparts, happends⟩ := foldlM_appends
      (W := fun m part => ∃ z, part = [z] ∧ writes x.defaultMessageTypes f (.named t) m z)
      (fun x' m y' hx' hstep => by
        obtain ⟨z, hz, happends⟩ := hnested _ _ _ _ _ hstep
        rw [hx'] at hz
        exact ⟨[z], ⟨z, rfl, hz⟩, happends⟩) ms rfl h
    refine ⟨parts.flatten, ?_, happends⟩
    unfold WritesProperty
    cases f.type <;> exact forall₂_singleton hparts
  · rename_i key value entries htype
    simp only [WritesProperty, htype]
    exact serializeEntries_appends (fun m x' y' hx' hstep => by
      obtain ⟨z, hz, happends⟩ := hnested _ _ _ _ _ hstep
      rw [hx'] at hz
      exact ⟨z, hz, happends⟩) _ rfl h
  · rename_i value _ _ hnull hmessage hmessages _ hhash
    obtain ⟨xs, hxs, happends⟩ : ∃ xs, WritesPlain S (writes x.defaultMessageTypes f) f value xs ∧
        Appends x y xs := by
      unfold WritesPlain
      split at h
      · rename_i henum
        simp only [if_pos henum]
        cases h
        have hstate := serializeEnum_eq f value x.state
        refine ⟨_, rfl, ?_⟩
        rw [show (serializerFormat order keep).serializeEnum f value x.state =
          serializeEnum f value x.state from rfl, hstate]
        exact appends_append x _
      · rename_i henum
        simp only [if_neg henum]
        rw [show (serializerFormat order keep).serializeScalarField f value x.state =
          serializeScalarField f value x.state from rfl, serializeScalarField_eq] at h
        cases hfields : scalarFields f value with
        | some fields =>
          simp only [hfields, Option.some.injEq] at h
          rw [← h]
          exact ⟨fields, rfl, appends_append x fields⟩
        | none =>
          simp only [hfields] at h
          cases hhandler : S.handlerOf f.type with
          | none =>
            simp only [hhandler, Option.some.injEq] at h
            rw [← h]
            exact ⟨[], rfl, .refl x⟩
          | some handler =>
            simp only [hhandler] at h
            cases value with
            | custom k content =>
              obtain ⟨parts, hparts, happends⟩ := foldlM_appends
                (W := fun m part => ∃ z, part = [z] ∧
                  writes x.defaultMessageTypes f handler.proxy m z)
                (fun x' m y' hx' hstep => by
                  obtain ⟨z, hz, happends⟩ := hnested _ _ _ _ _ hstep
                  rw [hx'] at hz
                  exact ⟨[z], ⟨z, rfl, hz⟩, happends⟩) _ rfl h
              exact ⟨parts.flatten, forall₂_singleton hparts, happends⟩
            | _ =>
              simp only [Option.some.injEq] at h
              rw [← h]
              exact ⟨[], rfl, .refl x⟩
    refine ⟨xs, ?_, happends⟩
    unfold WritesProperty
    split
    · exact (hnull rfl).elim
    · exact (hnull rfl).elim
    · exact (hmessage _ _ rfl).elim
    · exact (hmessages _ _ rfl).elim
    · exact (hhash _ _ _ ‹_› rfl).elim
    · exact hxs

/-- A sub-message becomes one field. -/
theorem serializeMessageField_appends
    {serialize : MessageType → Message → SerializerBase SerializerImpl →
      Option (SerializerBase SerializerImpl)}
    {written : List Nat → MessageType → Message → List WireField → Prop}
    (hserialize : ∀ t m x y, serialize t m x = some y →
      ∃ xs, written x.defaultMessageTypes t m xs ∧ Appends x y xs)
    {t : MessageType} {m : Message} {f : FieldInfo} {x y : SerializerBase SerializerImpl}
    (h : serializeMessageField (serializerFormat order keep) serialize t m f x = some y) :
    ∃ z, WritesMessage order keep written x.defaultMessageTypes f t m z ∧ Appends x y [z] := by
  obtain ⟨z, hz, rfl⟩ := Option.map_eq_some_iff.mp h
  obtain ⟨xs, hxs, happends⟩ := hserialize _ _ _ _ hz
  have hresult : z.state.result = xs.flatMap WireField.bytes := happends.result
  have hstate : z.state.state = x.state.result :: x.state.state := happends.state
  refine ⟨_, ⟨xs, hxs, rfl⟩, ⟨?_, ?_, happends.types⟩⟩
  · simp [serializerFormat, serializeMessageFieldEnd, unknownBytes_eq, SerializerImpl.append, hresult,
      hstate, messageField, WireField.bytes, List.append_assoc]
  · simp [serializerFormat, serializeMessageFieldEnd, unknownBytes_eq, SerializerImpl.append, hstate]

/-- The encoder appends the fields that are written for a message. -/
theorem serializeMessage_appends (fuel : Nat) {t : MessageType} {m : Message}
    {x y : SerializerBase SerializerImpl}
    (h : serializeMessage (serializerFormat order keep) S order fuel t m x = some y) :
    ∃ xs, Written S order keep fuel x.defaultMessageTypes t m xs ∧ Appends x y xs := by
  induction fuel generalizing t m x y with
  | zero => cases h
  | succ fuel ih =>
    obtain ⟨parts, hparts, happends⟩ := foldlM_appends
      (fun x' p y' hx' hstep => by
        obtain ⟨xs, hxs, happends⟩ := serializeProperty_appends
          (fun t m f x y hfield => serializeMessageField_appends (fun t m x y => ih) hfield) hstep
        rw [hx'] at hxs
        exact ⟨xs, hxs, happends⟩) _ rfl h
    exact ⟨_, ⟨parts, rfl, hparts⟩, happends⟩

end

/-! ## What was written is complete -/

section

variable {env : Environment} {n : Nat}

/-- A header that is written is the varint of the number and the wire type. -/
theorem exists_isVarint_encodeHeader (hle : n ≤ 2 ^ 29 - 1) (w : WireType) :
    ∃ value, IsVarint env (encodeHeader n w) value ∧
      (BitVec.setWidth 32 value).toNat = n * 8 + w.number := by
  have hnumber := WireType.number_lt w
  refine ⟨_, isVarint_serializeVarintCommon _, ?_⟩
  rw [BitVec.toNat_setWidth, BitVec.toNat_ofNat]
  omega

/-- A value that was written is read back, a string without its mark. -/
theorem scalarField_complete (hpos : 0 < n) (hle : n ≤ 2 ^ 29 - 1) (k : ScalarKind) (v : k.Carrier)
    (hsize : (scalarField n k v).bytes.length ≤ maxByteArraySize) :
    (scalarField n k v).Complete env ∧
      scalarOf env k (scalarField n k v).payload = k.unmarked v := by
  have hlength : k.wireType = .lengthDelimited → (toDelimited k v).length ≤ maxByteArraySize := by
    intro hw
    simp only [scalarField, WireField.bytes, serializeBasic, hw, prependLengthDelimitedSize,
      List.length_append] at hsize
    omega
  obtain ⟨hpayload, hvalue⟩ := @scalarOf_serializeBasic env k v hlength
  exact ⟨⟨hpos, hle, exists_isVarint_encodeHeader hle _, hpayload⟩, hvalue⟩

/-- A packed list that was written is read back. -/
theorem packedListField_complete (hpos : 0 < n) (hle : n ≤ 2 ^ 29 - 1) {k : ScalarKind}
    (hk : k.isLengthDelimited = false) {vs : List k.Carrier} (hvs : vs ≠ [])
    (hsize : (packedListField n k vs).bytes.length ≤ maxByteArraySize) :
    (packedListField n k vs).Complete env ∧ ∃ (length : Bytes) (payloads : List Bytes),
      (packedListField n k vs).payload = length ++ payloads.flatten ∧
        IsVarint env length (BitVec.ofNat 64 payloads.flatten.length) ∧
        payloads.flatten.length ≤ maxByteArraySize ∧
        (∀ payload ∈ payloads, IsPayload env k.wireType payload) ∧
        payloads.map (scalarOf env k) = vs := by
  have hpayload : (packedListField n k vs).payload =
      serializeVarintCommon (BitVec.ofNat 64 (vs.map (serializeBasic k)).flatten.length) ++
        (vs.map (serializeBasic k)).flatten := by
    have hnonempty : vs.isEmpty = false := by
      cases vs with
      | nil => exact absurd rfl hvs
      | cons v vs => rfl
    simp only [packedListField, serializeListType, hnonempty, Bool.false_eq_true, if_false,
      prependLengthDelimitedSize, List.flatMap_def]
  have hlength : (vs.map (serializeBasic k)).flatten.length ≤ maxByteArraySize := by
    rw [WireField.bytes, hpayload, List.length_append, List.length_append] at hsize
    omega
  have hwire (hw : k.wireType = .lengthDelimited) : False := by
    rw [ScalarKind.isLengthDelimited_eq, hw] at hk
    cases hk
  have hvarint := @isVarint_serializeVarintCommon env
    (BitVec.ofNat 64 (vs.map (serializeBasic k)).flatten.length)
  have hbasic (v : k.Carrier) := @scalarOf_serializeBasic env k v fun hw => (hwire hw).elim
  refine ⟨⟨hpos, hle, exists_isVarint_encodeHeader hle _, ?_⟩, _, _, hpayload, hvarint, hlength, ?_, ?_⟩
  · rw [hpayload]
    exact .lengthDelimited _ _ hvarint hlength
  · intro payload hmem
    obtain ⟨v, -, rfl⟩ := List.mem_map.mp hmem
    exact (hbasic v).1
  · rw [List.map_map]
    conv_rhs => rw [← List.map_id vs]
    exact List.map_congr_left fun v _ => (hbasic v).2.trans (ScalarKind.unmarked_eq_self hk v)

/-- A message that was written is complete, unless its length does not fit. -/
theorem messageField_complete (hpos : 0 < n) (hle : n ≤ 2 ^ 29 - 1) {content : Bytes}
    (hsize : content.length < 2 ^ 32) :
    (messageField n content).Complete env ∧ ∃ length : Bytes,
      (messageField n content).payload = length ++ content ∧
        IsVarint env length (BitVec.ofNat 64 content.length) := by
  have hvarint := @isVarint_serializeVarintCommon env (BitVec.ofNat 64 content.length)
  have hpayload : (messageField n content).payload =
      serializeVarintCommon (BitVec.ofNat 64 content.length) ++ content := by
    rw [messageField, Nat.mod_eq_of_lt hsize]
  refine ⟨⟨hpos, hle, exists_isVarint_encodeHeader hle _, ?_⟩, _, hpayload, hvarint⟩
  rw [hpayload]
  exact .lengthDelimited _ _ hvarint (by unfold maxByteArraySize; omega)

end

end QtGrpc.Protobuf.Binary
