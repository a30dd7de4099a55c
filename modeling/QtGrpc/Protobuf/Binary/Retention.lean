import QtGrpc.Library.Grouping
import QtGrpc.Protobuf.Binary.FieldOrder
import QtGrpc.Protobuf.Binary.RoundTrip

/-!
# Unknown fields

A message type that lacks some of the fields on the wire keeps them by their numbers, each as the
bytes it was received as, and gives them out again behind the fields it has. The order within a
number is that of the wire; the order of the numbers is that of a hash.
-/

namespace QtGrpc.Protobuf

/-- `QProtobufMessage::unknownFieldNumbers`. -/
def Message.unknownFieldNumbers (m : Message) : List Nat := m.unknownEntries.map Prod.fst

/-- `QProtobufMessage::unknownFieldData`. -/
def Message.unknownFieldData (m : Message) (field : Nat) : List Bytes :=
  (m.unknownEntries.lookup field).getD []

namespace Binary

open Grouping

variable {env : Environment} {S : Schema} {keep : Bool} {t : MessageType}

/-- The fields of the wire that a type does not have. -/
def unknownFields (S : Schema) (t : MessageType) (xs : List WireField) : List WireField :=
  xs.filter fun x => ((S.propertyOrdering t).indexOfFieldNumber x.fieldNumber).isNone

/-- Those of them that are kept. -/
def keptFields (S : Schema) (keep : Bool) (t : MessageType) (xs : List WireField) : List WireField :=
  if keep then unknownFields S t xs else []

/-- A field with its number. -/
def numbered (x : WireField) : Nat × Bytes := (x.fieldNumber, x.bytes)

/-- A stored entry is added to the group of its number. -/
theorem unknownEntries_storeUnknownEntry (m : Message) (entry : Bytes) (n : Nat) :
    (m.storeUnknownEntry entry n).unknownEntries = Grouping.add n entry m.unknownEntries := by
  change Message.storeUnknownEntry.append entry n m.unknownEntries = _
  induction m.unknownEntries with
  | nil => rfl
  | cons g groups ih => rw [Message.storeUnknownEntry.append, Grouping.add, ih]

/-- A field that the type has is not among the kept ones. -/
theorem keptFields_cons_known {x : WireField} {i : Nat}
    (h : (S.propertyOrdering t).indexOfFieldNumber x.fieldNumber = some i) (xs : List WireField) :
    keptFields S keep t (x :: xs) = keptFields S keep t xs := by
  simp [keptFields, unknownFields, h]

/-- The loop keeps the unknown fields it comes across, and no others. -/
theorem Decodes.groups {xs : List WireField} {p q : Draft} (h : Decodes env S keep t xs p q)
    {l : List (Nat × Bytes)} (hp : Groups l p.message.unknownEntries) :
    Groups (l ++ (keptFields S keep t xs).map numbered) q.message.unknownEntries := by
  induction xs generalizing p l with
  | nil =>
    obtain rfl := h.eq_of_nil
    simpa [keptFields, unknownFields] using hp
  | cons x xs ih =>
    obtain ⟨r, hx, hxs⟩ := h.of_cons
    cases hindex : (S.propertyOrdering t).indexOfFieldNumber x.fieldNumber with
    | some i =>
      rw [keptFields_cons_known hindex]
      exact ih hxs (by rwa [(hx.withEntries hindex []).1])
    | none =>
      obtain rfl := (decodes_unknown_iff (hx.complete x List.mem_cons_self) hindex).mp hx
      cases keep with
      | false => exact ih hxs hp
      | true =>
        have hr := hp.add x.fieldNumber x.bytes
        rw [← unknownEntries_storeUnknownEntry] at hr
        have hrest := ih hxs hr
        simp only [keptFields, unknownFields, hindex, Option.isNone_none, if_true,
          List.filter_cons_of_pos, List.map_cons] at hrest ⊢
        rwa [List.append_assoc, List.singleton_append] at hrest

/-- What a message keeps of the unknown fields of an input. -/
structure Keeps (S : Schema) (keep : Bool) (t : MessageType) (xs : List WireField) (m : Message) :
    Prop where
  numbers_nodup : m.unknownFieldNumbers.Nodup
  mem_numbers : ∀ n, n ∈ m.unknownFieldNumbers ↔ ∃ x ∈ keptFields S keep t xs, x.fieldNumber = n
  data : ∀ n, m.unknownFieldData n =
    ((keptFields S keep t xs).filter fun x => x.fieldNumber = n).map WireField.bytes

/-- The values under a number are the bytes of its fields in order. -/
theorem valuesOf_numbered (xs : List WireField) (n : Nat) :
    valuesOf (xs.map numbered) n = (xs.filter fun x => x.fieldNumber = n).map WireField.bytes := by
  unfold valuesOf
  rw [List.filter_map, List.map_map]
  rfl

/-- Entries that are the groups of the kept fields are what has to be kept. -/
theorem keeps_of_groups {xs : List WireField} {m : Message}
    (h : Groups ((keptFields S keep t xs).map numbered) m.unknownEntries) : Keeps S keep t xs m := by
  refine ⟨h.nodup, fun n => ?_, fun n => ?_⟩
  · exact (h.mem_keys n).trans (by simp [numbered])
  · rw [← valuesOf_numbered]
    exact h.lookup n

/-- Storing the cached value leaves the unknown entries alone. -/
theorem unknownEntries_storeCachedValue {c c' : Cache} {m m' : Message} {ok : Bool}
    (h : storeCachedValue S t c m = (c', m', ok)) : m'.unknownEntries = m.unknownEntries := by
  have hself := @storeCachedValue_withEntries S t m.unknownEntries c m
  rw [withEntries_eq rfl, h] at hself
  simpa using congrArg (fun r => r.2.1.unknownEntries) hself

/-- Decoding changes no setting of a serializer. -/
theorem deserializeMessage_keeps (d : SerializerPrivate) (fuel : Nat) (t : MessageType)
    (data : Bytes) :
    (d.deserializeMessage env S fuel t data).1.preserveUnknownFields = d.preserveUnknownFields ∧
      (d.deserializeMessage env S fuel t data).1.base.effectiveMaximumInputSize =
        d.base.effectiveMaximumInputSize := by
  have heq := @SerializerPrivate.deserializeMessage_eq env S fuel d t data
  obtain ⟨hmaximum, henv, hkeep⟩ := @Serializer.deserialize_keeps env S d.base fuel t data
  rw [← heq] at hmaximum henv hkeep
  refine ⟨hkeep, ?_⟩
  simp only at hmaximum henv
  simp only [Serializer.effectiveMaximumInputSize, hmaximum, henv]

/-- Fields that fit are decoded by a serializer. -/
theorem exists_deserialized (d : SerializerPrivate) {xs : List WireField}
    (hfits : ∀ x ∈ xs, Fits env S t x)
    (hsize : (xs.flatMap WireField.bytes).length ≤ d.base.effectiveMaximumInputSize) {fuel : Nat}
    (hfuel : (xs.flatMap WireField.bytes).length < fuel) :
    ∃ q m ok, Decodes env S d.preserveUnknownFields t xs (.start S t) q ∧
      storeCachedValue S t q.cache q.message = ({}, m, true) ∧
        (d.deserializeMessage env S fuel t (xs.flatMap WireField.bytes)).2 = (m, .returned ok) ∧
          (ok = true ↔ RequiredPresent S t xs) ∧
            WellFormed S t m ∧
              Groups ((keptFields S d.preserveUnknownFields t xs).map numbered)
                m.unknownEntries := by
  obtain ⟨q, hq, hsound⟩ := exists_decodes_of_fits d.preserveUnknownFields hfits
    (Draft.sound_start S t)
  obtain ⟨m, hstore, hformed⟩ := hsound.store
  obtain ⟨s', ok, hresult, hok⟩ := hq.deserialize hstore hsize hfuel
  refine ⟨q, m, ok, hq, hstore, ?_, hok, hformed, ?_⟩
  · have heq := @SerializerPrivate.deserializeMessage_eq env S fuel d t (xs.flatMap WireField.bytes)
    rw [hresult] at heq
    exact congrArg Prod.snd heq
  · rw [unknownEntries_storeCachedValue hstore]
    exact hq.groups Groups.nil

/-- Fields that fit a type are accepted if and only if the required ones are among them. Of the
others nothing is lost: they can be looked up by their numbers in the order in which they came. -/
theorem deserialize_of_fits (env : Environment) (S : Schema) (d : SerializerPrivate)
    (t : MessageType) (xs : List WireField) (hfits : ∀ x ∈ xs, Fits env S t x)
    (hsize : (xs.flatMap WireField.bytes).length ≤ d.base.effectiveMaximumInputSize) (fuel : Nat)
    (hfuel : (xs.flatMap WireField.bytes).length < fuel) :
    ∃ m ok,
      (d.deserializeMessage env S fuel t (xs.flatMap WireField.bytes)).2 = (m, .returned ok) ∧
        (ok = true ↔ RequiredPresent S t xs) ∧ Keeps S d.preserveUnknownFields t xs m := by
  obtain ⟨q, m, ok, -, -, hresult, hok, -, hgroups⟩ := exists_deserialized d hfits hsize hfuel
  exact ⟨m, ok, hresult, hok, keeps_of_groups hgroups⟩

/-- A number between two fields that its type does not have. -/
def readingFields : List WireField :=
  [⟨128, .lengthDelimited, [0x82, 0x08], [0x01] ++ [0x01]⟩, ⟨1, .varint, [0x08], [0x07]⟩,
    ⟨128, .lengthDelimited, [0x82, 0x08], [0x01] ++ [0x02]⟩]

/-- Every field of the sample fits its message. -/
theorem fits_readingFields :
    ∀ x ∈ readingFields, Fits nullTerminated readingSchema (.named 0) x := by
  have hunknown (byte : UInt8) : Fits nullTerminated readingSchema (.named 0)
      ⟨128, .lengthDelimited, [0x82, 0x08], [0x01] ++ [byte]⟩ :=
    .unknown ⟨(by decide : 0 < 128), (by decide : 128 ≤ 2 ^ 29 - 1),
      ⟨1026, (by decide : IsVarint nullTerminated [0x82, 0x08] 1026), rfl⟩,
      .lengthDelimited [0x01] [byte] (by simp; decide) (by simp [maxByteArraySize])⟩ rfl
  have hknown : Fits nullTerminated readingSchema (.named 0) ⟨1, .varint, [0x08], [0x07]⟩ :=
    .plain ⟨by decide, by decide, ⟨8, by decide, by decide⟩, .varint _ 7 (by decide)⟩ rfl rfl
      (.scalar (k := .int64) rfl .null)
  intro x hx
  simp only [readingFields, List.mem_cons, List.not_mem_nil, or_false] at hx
  rcases hx with rfl | rfl | rfl
  · exact hunknown 1
  · exact hknown
  · exact hunknown 2

/-- The sample is accepted, and what the type does not have is kept. -/
theorem deserialize_of_fits_reading :
    ∃ m, ((SerializerPrivate.new {}).deserializeMessage nullTerminated readingSchema 20 (.named 0)
        (readingFields.flatMap WireField.bytes)).2 = (m, .returned true) ∧
      Keeps readingSchema true (.named 0) readingFields m := by
  obtain ⟨m, ok, hresult, hok, hkeeps⟩ := deserialize_of_fits nullTerminated readingSchema (.new {})
    (.named 0) readingFields fits_readingFields (by decide) 20 (by decide)
  obtain rfl : ok = true := hok.mpr (ordinary_reading.requiredPresent (.named 0) readingFields)
  exact ⟨m, hresult, hkeeps⟩

/-! ## Encoding them again -/

section

variable {order : HashOrder} {types : List Nat}
  {writes : List Nat → FieldInfo → MessageType → Message → WireField → Prop} {f : FieldInfo}
  {value : Value} {xs : List WireField} {x : WireField}

/-- A field of some number as the encoder writes it: a value, the values of a list, or a message. -/
inductive WrittenField (n : Nat) : WireField → Prop where
  | scalar (k : ScalarKind) (v : k.Carrier) : WrittenField n (scalarField n k v)
  | packed {k : ScalarKind} (hk : k.isLengthDelimited = false) {vs : List k.Carrier} (hvs : vs ≠ []) :
      WrittenField n (packedListField n k vs)
  | message (content : Bytes) : WrittenField n (messageField n content)

/-- A written field has the number that it was written for. -/
theorem WrittenField.fieldNumber {n : Nat} (h : WrittenField n x) : x.fieldNumber = n := by
  cases h <;> rfl

/-- What is written is complete, as far as the output stays within its limit. -/
theorem WrittenField.complete {n : Nat} (h : WrittenField n x) (hpos : 0 < n) (hle : n ≤ 2 ^ 29 - 1)
    (hsize : x.bytes.length ≤ maxSerializeMessageSizeLimit) : x.Complete env := by
  have hbytes : x.bytes.length ≤ maxByteArraySize :=
    Nat.le_trans hsize (by decide)
  cases h with
  | scalar k v => exact (scalarField_complete hpos hle k v hbytes).1
  | packed hk hvs => exact (packedListField_complete hpos hle hk hvs hbytes).1
  | message content =>
    have hcontent : content.length < 2 ^ 32 := by
      simp only [messageField, WireField.bytes, List.length_append, maxSerializeMessageSizeLimit]
        at hsize
      omega
    exact (messageField_complete hpos hle hcontent).1

/-- An empty list has no presence of its own, and nothing is written for it. -/
theorem writtenField_of_scalarFields
    (hlist : ∀ k vs, value = .scalars k vs → mustSerializeDefaultValue f.fieldFlags = false)
    (h : scalarFields f value = some xs) (hx : x ∈ xs) : WrittenField f.fieldNumber x := by
  obtain ⟨ys, hys, rfl⟩ := Option.map_eq_some_iff.mp h
  split at hx
  · cases hx
  rename_i hpresent
  unfold integratedFields at hys
  split at hys
  · rename_i k v
    split at hys
    · cases hys
    · cases hys
      obtain rfl := List.mem_singleton.mp hx
      exact .scalar k v
  · rename_i k vs
    rw [hlist k vs rfl] at hpresent
    split at hys
    · cases hys
    · split at hys
      · cases hys
        obtain ⟨v, -, rfl⟩ := List.mem_map.mp hx
        exact .scalar k v
      · rename_i hk
        cases hys
        obtain rfl := List.mem_singleton.mp hx
        simp only [Bool.or_eq_true, not_or, Bool.not_eq_true] at hk
        refine .packed hk.2 fun hnil => hpresent ?_
        simp [hnil, integratedIsPresent]
  · cases hys

/-- What is written for an enumerator has the number of its field. -/
theorem writtenField_of_enumFields (hx : x ∈ enumFields f value) : WrittenField f.fieldNumber x := by
  unfold enumFields at hx
  split at hx
  · split at hx
    · simp only at hx
      split at hx
      · cases hx
      · split at hx
        · obtain ⟨v, -, rfl⟩ := List.mem_map.mp hx
          exact .scalar _ v
        · rename_i hne _
          obtain rfl := List.mem_singleton.mp hx
          exact .packed rfl fun hnil => hne (by rw [hnil]; rfl)
    · cases hx
  · split at hx
    · simp only at hx
      split at hx
      · cases hx
      · obtain rfl := List.mem_singleton.mp hx
        exact .scalar _ _
    · cases hx

/-- All that is written of a property are fields of its number. -/
theorem WritesProperty.writtenField (h : WritesProperty S order writes types f value xs)
    (hlist : ∀ k vs, value = .scalars k vs → mustSerializeDefaultValue f.fieldFlags = false)
    (hwrites : ∀ types t m x, writes types f t m x → WrittenField f.fieldNumber x) (hx : x ∈ xs) :
    WrittenField f.fieldNumber x := by
  unfold WritesProperty at h
  split at h
  · split at h
    · obtain ⟨y, rfl, hy⟩ := h
      obtain rfl := List.mem_singleton.mp hx
      exact hwrites _ _ _ _ hy
    · rw [h] at hx
      cases hx
  · rw [h] at hx
    cases hx
  · obtain ⟨y, rfl, hy⟩ := h
    obtain rfl := List.mem_singleton.mp hx
    exact hwrites _ _ _ _ hy
  · obtain ⟨m, -, hm⟩ := exists_of_forall₂ h hx
    exact hwrites _ _ _ _ hm
  · obtain ⟨m, -, hm⟩ := exists_of_forall₂ h hx
    exact hwrites _ _ _ _ hm
  · unfold WritesPlain at h
    split at h
    · rw [h] at hx
      exact writtenField_of_enumFields hx
    · split at h
      · rename_i fields hfields
        rw [h] at hx
        exact writtenField_of_scalarFields hlist hfields hx
      · split at h
        · obtain ⟨m, -, hm⟩ := exists_of_forall₂ h hx
          exact hwrites _ _ _ _ hm
        · rw [h] at hx
          cases hx

/-- What is written for a message has the number of its field. -/
theorem WritesMessage.writtenField {t : MessageType} {m : Message}
    {written : List Nat → MessageType → Message → List WireField → Prop}
    (h : WritesMessage order keep written types f t m x) : WrittenField f.fieldNumber x := by
  obtain ⟨ys, -, rfl⟩ := h
  exact .message _

end

/-- A property that is a list of scalars is one of a field of lists. -/
theorem list_of_scalars {m : Message} {i : Nat} {f : FieldInfo} (hm : WellFormed S t m)
    (hf : (S.propertyOrdering t).fields[i]? = some f) {k : ScalarKind} {vs : List k.Carrier}
    (hv : m.messageProperty i f = .scalars k vs) : ∃ k', f.type = .list k' := by
  obtain ⟨hown, honeof, -⟩ := hm
  have hsuits : (Value.scalars k vs).Suits f.type := by
    rw [← hv]
    unfold Message.messageProperty at hv ⊢
    split at hv
    · rename_i j hj
      split at hv
      · rename_i hholds
        rw [if_pos hholds]
        exact honeof i j f hf hj hholds
      · cases hv
    · rename_i hpresence
      have hmember : f.memberAt i = .field i := by
        unfold FieldInfo.memberAt
        split
        · exact absurd ‹_› (hpresence _)
        · rfl
      rcases hown i f hf hmember with hstored | ⟨hnull, -⟩
      · exact hstored
      · rw [hv] at hnull
        cases hnull
  generalize f.type = type at hsuits
  cases type <;> simp [Value.Suits] at hsuits ⊢

/-- The fields that are written for a well-formed message are complete fields of its type. -/
theorem Written.known {order : HashOrder} {fuel : Nat} {types : List Nat} {m : Message}
    {xs : List WireField} (h : Written S order keep fuel types t m xs) (hm : WellFormed S t m)
    {x : WireField} (hx : x ∈ xs) (hsize : x.bytes.length ≤ maxSerializeMessageSizeLimit) :
    x.Complete env ∧ ((S.propertyOrdering t).indexOfFieldNumber x.fieldNumber).isSome := by
  cases fuel with
  | zero => cases h
  | succ fuel =>
    obtain ⟨parts, rfl, hparts⟩ := h
    obtain ⟨part, hpart, hx⟩ := List.mem_flatten.mp hx
    obtain ⟨⟨f, i⟩, hf, hproperty⟩ := exists_of_forall₂ hparts hpart
    have hi := List.mk_mem_zipIdx_iff_getElem?.mp hf
    have hmem := List.mem_of_getElem? hi
    have hwritten := hproperty.writtenField
      (fun k vs hv => by
        obtain ⟨k', htype⟩ := list_of_scalars hm hi hv
        exact not_mustSerialize_of_list ((S.propertyOrdering t).presence_fits f hmem) htype)
      (fun _ _ _ _ hwrites => hwrites.writtenField) hx
    obtain ⟨hpos, hle⟩ := (S.propertyOrdering t).numbers_bound f hmem
    refine ⟨hwritten.complete hpos hle hsize, ?_⟩
    rw [hwritten.fieldNumber, indexOfFieldNumber_of_getElem? hi]
    rfl

/-- The kept entries of a message in the order in which a hash gives them out. -/
theorem unknownBytes_of_groups {l : List (Nat × Bytes)} {m : Message}
    (h : Groups l m.unknownEntries) (order : HashOrder) :
    ∃ ns : List Nat, ns.Nodup ∧ (∀ n, n ∈ ns ↔ n ∈ l.map Prod.fst) ∧
      unknownBytes order true m = ns.flatMap fun n => (valuesOf l n).flatten := by
  have hordered := h.perm (order.unknownEntries_perm m.unknownEntries)
  refine ⟨_, hordered.nodup, hordered.mem_keys, ?_⟩
  calc unknownBytes order true m
      = (order.unknownEntries m.unknownEntries).flatMap fun g => g.2.flatten := rfl
    _ = ((order.unknownEntries m.unknownEntries).map Prod.fst).flatMap
          fun n => (valuesOf l n).flatten := by
        conv_lhs => rw [hordered.eq_map]
        rw [List.flatMap_map]

/-- A serializer that preserves unknown fields and decodes a message from fields that fit writes
those the type does not have again, each byte for byte: behind complete fields of the type there
stand those of each unknown number, in the order in which they came. -/
theorem serialize_unknownFields (env : Environment) (order : HashOrder) (S : Schema)
    (d : SerializerPrivate) (hkeep : d.preserveUnknownFields = true) (t : MessageType)
    (xs : List WireField) (hfits : ∀ x ∈ xs, Fits env S t x)
    (hsize : (xs.flatMap WireField.bytes).length ≤ d.base.effectiveMaximumInputSize) (fuel : Nat)
    (hfuel : (xs.flatMap WireField.bytes).length < fuel) :
    ∃ d' m ok,
      d.deserializeMessage env S fuel t (xs.flatMap WireField.bytes) = (d', m, .returned ok) ∧
        ∀ fuel' d'' data, d'.serializeMessage order S fuel' t m = (d'', some data) →
          d''.base.deserializer.lastError = .none →
            ∃ (ys : List WireField) (ns : List Nat),
              (∀ y ∈ ys, y.Complete env ∧
                ((S.propertyOrdering t).indexOfFieldNumber y.fieldNumber).isSome) ∧
                ns.Nodup ∧ (∀ n, n ∈ ns ↔ ∃ x ∈ unknownFields S t xs, x.fieldNumber = n) ∧
                  data = ys.flatMap WireField.bytes ++ ns.flatMap fun n =>
                    ((unknownFields S t xs).filter fun x => x.fieldNumber = n).flatMap
                      WireField.bytes := by
  obtain ⟨q, m, ok, -, -, hresult, -, hformed, hgroups⟩ := exists_deserialized d hfits hsize hfuel
  rw [hkeep] at hgroups
  refine ⟨_, m, ok, Prod.ext rfl hresult, fun fuel' d'' data h herror => ?_⟩
  obtain ⟨-, -, hlimit, types, ys, hys, rfl⟩ := written_of_serializeMessage h herror
  have hkeep' := ((@deserializeMessage_keeps env S d fuel t (xs.flatMap WireField.bytes)).1).trans hkeep
  obtain ⟨ns, hnodup, hns, hbytes⟩ := unknownBytes_of_groups hgroups order
  rw [hkeep'] at hys ⊢
  refine ⟨ys, ns, fun y hy => hys.known hformed hy ?_, hnodup, fun n => ?_, ?_⟩
  · refine Nat.le_trans ?_ hlimit
    rw [List.length_append]
    exact Nat.le_add_right_of_le
      ((List.sublist_flatten_of_mem (List.mem_map_of_mem hy)).length_le)
  · rw [hns]
    simp [keptFields, numbered]
  · rw [hbytes]
    simp only [valuesOf_numbered, keptFields, if_true]
    rfl

/-- The sample's unknown fields are written again, after the fields that the type has. -/
theorem serialize_unknownFields_reading :
    ∃ d' m ok, (SerializerPrivate.new {}).deserializeMessage nullTerminated readingSchema 20 (.named 0)
        (readingFields.flatMap WireField.bytes) = (d', m, .returned ok) ∧
      ∀ fuel' d'' data, d'.serializeMessage .ofInsertion readingSchema fuel' (.named 0) m =
          (d'', some data) → d''.base.deserializer.lastError = .none →
        ∃ (ys : List WireField) (ns : List Nat),
          (∀ y ∈ ys, y.Complete nullTerminated ∧
            ((readingSchema.propertyOrdering (.named 0)).indexOfFieldNumber
              y.fieldNumber).isSome) ∧
            ns.Nodup ∧ (∀ n, n ∈ ns ↔ ∃ x ∈ unknownFields readingSchema (.named 0) readingFields,
              x.fieldNumber = n) ∧
              data = ys.flatMap WireField.bytes ++ ns.flatMap fun n =>
                ((unknownFields readingSchema (.named 0) readingFields).filter
                  fun x => x.fieldNumber = n).flatMap WireField.bytes :=
  serialize_unknownFields nullTerminated .ofInsertion readingSchema (.new {}) rfl (.named 0)
    readingFields fits_readingFields (by decide) 20 (by decide)

end Binary

end QtGrpc.Protobuf
