import QtGrpc.Protobuf.Binary.Fitting

/-!
# Repeated numbers and enumerators

The values of a repeated field may arrive as packed lists and as single elements, in any order and
between other fields. A single element is appended to what was read before; a packed list takes
its place. So all values are read, in their order, if and only if none comes before a packed list.
-/

namespace QtGrpc.Protobuf.Binary

/-- What a repeated field of numbers, booleans or enumerators holds. -/
inductive RepeatedType where
  | scalar (k : ScalarKind) (h : k.isLengthDelimited = false)
  | enum (e : Nat)

namespace RepeatedType

def type : RepeatedType → PropertyType
  | scalar k _ => .list k
  | enum e => .enumList e

def Element : RepeatedType → Type
  | scalar k _ => k.Carrier
  | enum _ => BitVec 32

/-- The property with these elements. -/
def property : (r : RepeatedType) → List r.Element → Value
  | scalar k _, vs => .scalars k vs
  | enum e, vs => .enumerators e vs

def wireType : RepeatedType → WireType
  | scalar k _ => k.wireType
  | enum _ => .varint

/-- How an element is written. -/
def serialize : (r : RepeatedType) → r.Element → Bytes
  | scalar k _, v => serializeBasic k v
  | enum _, v => serializeBasic .int64 (BitVec.signExtend 64 v)

end RepeatedType

/-- The elements as one packed field. -/
def packedField (r : RepeatedType) (n : Nat) (vs : List r.Element) : WireField where
  fieldNumber := n
  wireType := .lengthDelimited
  header := encodeHeader n .lengthDelimited
  payload := prependLengthDelimitedSize (vs.flatMap r.serialize)

/-- One element as a field of its own. -/
def elementField (r : RepeatedType) (n : Nat) (v : r.Element) : WireField where
  fieldNumber := n
  wireType := r.wireType
  header := encodeHeader n r.wireType
  payload := r.serialize v

/-- A part of a message with a repeated field. -/
inductive Segment (r : RepeatedType) where
  | packed (vs : List r.Element)
  | unpacked (vs : List r.Element)
  | other (x : WireField)

namespace Segment

variable {r : RepeatedType}

/-- The fields it is encoded as. -/
def fields (n : Nat) : Segment r → List WireField
  | packed vs => [packedField r n vs]
  | unpacked vs => vs.map (elementField r n)
  | other x => [x]

/-- The elements it contributes to the list. -/
def elements : Segment r → List r.Element
  | packed vs | unpacked vs => vs
  | other _ => []

/-- What the decoder makes of the elements it has read before. -/
def read (old : List r.Element) : Segment r → List r.Element
  | packed vs => vs
  | unpacked vs => old ++ vs
  | other _ => old

end Segment

section

variable {env : Environment} {r : RepeatedType}

/-- An element is read back from its payload. -/
theorem RepeatedType.isPayload_serialize (r : RepeatedType) (v : r.Element) :
    IsPayload env r.wireType (r.serialize v) := by
  cases r with
  | scalar k h =>
    refine (scalarOf_serializeBasic k v fun hw => ?_).1
    cases k <;> simp [ScalarKind.wireType, ScalarKind.isLengthDelimited] at hw h
  | enum e => exact (scalarOf_serializeBasic .int64 _ (by simp [ScalarKind.wireType])).1

variable (env) in
/-- The element in a payload. -/
def RepeatedType.decode : (r : RepeatedType) → Bytes → r.Element
  | scalar k _, payload => scalarOf env k payload
  | enum _, payload => BitVec.setWidth 32 (scalarOf env .int64 payload)

/-- An element is decoded from what is written for it. -/
theorem RepeatedType.decode_serialize (r : RepeatedType) (v : r.Element) :
    r.decode env (r.serialize v) = v := by
  cases r with
  | scalar k h =>
    refine (scalarOf_serializeBasic k v fun hw => ?_).2.trans (ScalarKind.unmarked_eq_self h v)
    cases k <;> simp [ScalarKind.wireType, ScalarKind.isLengthDelimited] at hw h
  | enum e =>
    have hread := (@scalarOf_serializeBasic env .int64 (BitVec.signExtend 64 v)
      (by simp [ScalarKind.wireType])).2
    exact (congrArg (BitVec.setWidth 32) hread).trans (setWidth_signExtend v)

/-- A single element is appended to the list. -/
theorem RepeatedType.taken_element {x : WireField} (hwire : x.wireType = r.wireType)
    (old : List r.Element) :
    Taken env x r.type (r.property old) (r.property (old ++ [r.decode env x.payload])) := by
  cases r with
  | scalar k h => exact .element hwire old
  | enum e => exact .enumElement hwire e old

/-- A packed field appends its elements to the list. -/
theorem RepeatedType.taken_packed {x : WireField} (hwire : x.wireType = .lengthDelimited)
    {length : Bytes} {payloads : List Bytes} (hpayload : x.payload = length ++ payloads.flatten)
    (hlength : IsVarint env length (BitVec.ofNat 64 payloads.flatten.length))
    (hsize : payloads.flatten.length ≤ maxByteArraySize)
    (h : ∀ payload ∈ payloads, IsPayload env r.wireType payload) (old : List r.Element) :
    Taken env x r.type (r.property old) (r.property (payloads.map (r.decode env))) := by
  cases r with
  | scalar k hk => exact .packed hk hwire hpayload hlength hsize h old
  | enum e => exact .enumPacked hwire hpayload hlength hsize h e old

/-- The field written for one element appends that element. -/
theorem taken_elementField (n : Nat) (old : List r.Element) (v : r.Element) :
    Taken env (elementField r n v) r.type (r.property old) (r.property (old ++ [v])) := by
  have htaken := @RepeatedType.taken_element env _ (elementField r n v) rfl old
  rwa [elementField, r.decode_serialize] at htaken

/-- The packed field written for a list appends its elements. -/
theorem taken_packedField (n : Nat) (old vs : List r.Element)
    (hsize : (vs.flatMap r.serialize).length ≤ maxByteArraySize) :
    Taken env (packedField r n vs) r.type (r.property old) (r.property vs) := by
  have hpayloads : ∀ payload ∈ vs.map r.serialize, IsPayload env r.wireType payload := by
    simp only [List.mem_map, forall_exists_index, and_imp, forall_apply_eq_imp_iff₂]
    exact fun v _ => r.isPayload_serialize v
  have htaken := @RepeatedType.taken_packed env _ (packedField r n vs) rfl _
    (vs.map r.serialize) rfl (isVarint_serializeVarintCommon _) hsize hpayloads old
  rw [List.map_map] at htaken
  have hread : r.decode env ∘ r.serialize = id := funext fun v => r.decode_serialize v
  rwa [hread, List.map_id] at htaken

/-- A header that the serializer writes, with a payload of its wire type, is a complete field. -/
theorem complete_encodeHeader {n : Nat} (hpos : 0 < n) (hle : n ≤ 2 ^ 29 - 1) {w : WireType}
    {payload : Bytes} (h : IsPayload env w payload) :
    WireField.Complete env ⟨n, w, encodeHeader n w, payload⟩ := by
  refine ⟨hpos, hle, ⟨_, isVarint_serializeVarintCommon _, ?_⟩, h⟩
  have hnumber := WireType.number_lt w
  rw [BitVec.toNat_setWidth, BitVec.toNat_ofNat]
  change (n * 8 + w.number) % 2 ^ 32 % 2 ^ 64 % 2 ^ 32 = n * 8 + w.number
  omega

end

/-! ## Decoding the segments of a message -/

section

variable {env : Environment} {S : Schema} {t : MessageType} {i : Nat} {f : FieldInfo}
  {r : RepeatedType}

/-- Every such list can be packed. -/
theorem RepeatedType.isPackable (r : RepeatedType) : r.type.isPackable = true := by
  cases r with
  | scalar k h => simp [type, PropertyType.isPackable, h]
  | enum e => rfl

/-- Lists with the same property are the same. -/
theorem RepeatedType.property_injective {vs vs' : List r.Element}
    (h : r.property vs = r.property vs') : vs = vs' := by
  cases r with
  | scalar k hk =>
    simp only [property] at h
    injection h
  | enum e =>
    simp only [property] at h
    injection h

/-- The setter of a list leaves the new list, or an old one of the same length. -/
theorem RepeatedType.assigned (S : Schema) (r : RepeatedType) (base vs : List r.Element) :
    ∃ ws, S.assigned r.type (r.property base) (r.property vs) = r.property ws ∧
      (ws = vs ∨ ws = base ∧ base.length = vs.length) := by
  cases r with
  | scalar k hk =>
    simp only [type, property, Schema.assigned, true_and]
    split
    · rename_i hsame
      have hlength : base.length = vs.length := by
        simp only [sameList, Bool.and_eq_true, beq_iff_eq] at hsame
        exact hsame.1
      exact ⟨base, rfl, .inr ⟨rfl, hlength⟩⟩
    · exact ⟨vs, rfl, .inl rfl⟩
  | enum e => exact ⟨vs, rfl, .inl rfl⟩

/-- The list that was read is as long as a given one. If it is to be the same list, its member only
holds this list or a shorter one, so that the setter does not take them for equal. -/
structure LoopState.Gathers (p : LoopState) (i : Nat) (r : RepeatedType) (whole : Prop)
    (old base vs : List r.Element) : Prop where
  content : p.content i = r.property vs
  member : p.message.member (.field i) = r.property base
  length : vs.length = old.length
  same : whole → vs = old ∧ (base = vs ∨ base.length < vs.length)

section

variable {whole : Prop} {old base vs : List r.Element} {p q : LoopState}

/-- What is written of a list that was read. -/
theorem LoopState.Gathers.stored (S : Schema) (h : p.Gathers i r whole old base vs)
    (htype : f.type = r.type) : ∃ ws, p.cache.stored S p.message i f = r.property ws ∧
      ws.length = old.length ∧ (whole → ws = old) := by
  obtain ⟨hcontent, hmember, hlength, hsame⟩ := h
  by_cases hcached : p.cache.index = some i
  · obtain ⟨ws, hwritten, hws⟩ := r.assigned S base vs
    refine ⟨ws, ?_, ?_, fun hwhole => ?_⟩
    · rw [LoopState.content, Cache.content, if_pos hcached] at hcontent
      rw [Cache.stored, if_pos hcached, hmember, hcontent, htype, hwritten]
    · rcases hws with rfl | ⟨rfl, heq⟩ <;> omega
    · obtain ⟨rfl, hbase⟩ := hsame hwhole
      rcases hws with rfl | ⟨rfl, heq⟩
      · rfl
      · rcases hbase with rfl | hshort
        · rfl
        · omega
  · rw [LoopState.content, Cache.content, if_neg hcached] at hcontent
    obtain rfl := r.property_injective (hmember.symm.trans hcontent)
    exact ⟨base, by rw [Cache.stored, if_neg hcached, hmember], hlength,
      fun hwhole => (hsame hwhole).1⟩

/-- Other fields leave the list as it is. -/
theorem LoopState.Gathers.kept (h : p.Gathers i r whole old base vs) (htype : f.type = r.type)
    (hkept : p.Kept S i f q) : ∃ base vs, q.Gathers i r whole old base vs := by
  rcases hkept with ⟨hcontent, hmember⟩ | ⟨hcontent, hmember⟩
  · exact ⟨base, vs, hcontent.trans h.content, hmember.trans h.member, h.length, h.same⟩
  · obtain ⟨ws, hstored, hlength, hsame⟩ := h.stored S htype
    exact ⟨ws, ws, hcontent.trans hstored, hmember.trans hstored, hlength,
      fun hwhole => ⟨hsame hwhole, .inl rfl⟩⟩

end

/-- Single elements are appended one by one. -/
theorem steps_unpacked (hf : (S.propertyOrdering t).fields[i]? = some f) (htype : f.type = r.type)
    {whole : Prop} (values old : List r.Element) {p : LoopState} {input tail : Bytes}
    {frames : List Int}
    (hp : p.Ready S t ((values.map (elementField r f.fieldNumber)).flatMap WireField.bytes ++ input)
      tail frames) {base vs : List r.Element} (hgathers : p.Gathers i r whole old base vs) :
    ∃ q, p.Steps env S t (values.map (elementField r f.fieldNumber)) q ∧
      ∃ base vs, q.Gathers i r whole (old ++ values) base vs := by
  have hbound := (S.propertyOrdering t).numbers_bound f (List.mem_of_getElem? hf)
  induction values generalizing p old vs with
  | nil => exact ⟨p, .nil p, base, vs, by rwa [List.append_nil]⟩
  | cons v values ih =>
    have hcomplete : (elementField r f.fieldNumber v).Complete env :=
      complete_encodeHeader hbound.1 hbound.2 (r.isPayload_serialize v)
    rw [List.map_cons, List.flatMap_cons, List.append_assoc] at hp
    obtain ⟨q, hstep, hread, hmember⟩ := step_list hcomplete (indexOfFieldNumber_of_getElem? hf) hf
      (htype ▸ r.isPackable) hp (by
        rw [hgathers.content, htype]
        exact taken_elementField f.fieldNumber vs v)
    have hnext : q.Gathers i r whole (old ++ [v]) base (vs ++ [v]) := by
      refine ⟨hread, hmember.trans hgathers.member, by simp [hgathers.length], fun hwhole => ?_⟩
      obtain ⟨rfl, hbase⟩ := hgathers.same hwhole
      refine ⟨rfl, .inr ?_⟩
      rw [List.length_append, List.length_singleton]
      rcases hbase with rfl | hshort <;> omega
    obtain ⟨q', hsteps, hq'⟩ := ih (old ++ [v]) (hstep.ready hp) hnext
    refine ⟨q', .cons hstep hsteps, ?_⟩
    rwa [List.append_assoc, List.singleton_append] at hq'

/-- What one segment makes of the list. It is the same list if a packed one finds nothing before
it. -/
theorem steps_segment (hf : (S.propertyOrdering t).fields[i]? = some f) (htype : f.type = r.type)
    {whole : Prop} (segment : Segment r) (old : List r.Element)
    (hwhole : whole → ∀ vs, segment = .packed vs → old = [])
    (hother : ∀ x, segment = .other x → Fits env S t x ∧ x.fieldNumber ≠ f.fieldNumber)
    (hsize : ((segment.fields f.fieldNumber).flatMap WireField.bytes).length ≤ maxByteArraySize)
    {p : LoopState} {input tail : Bytes} {frames : List Int}
    (hp : p.Ready S t ((segment.fields f.fieldNumber).flatMap WireField.bytes ++ input) tail frames)
    {base vs : List r.Element} (hgathers : p.Gathers i r whole old base vs) :
    ∃ q, p.Steps env S t (segment.fields f.fieldNumber) q ∧
      ∃ base vs, q.Gathers i r whole (segment.read old) base vs := by
  have hbound := (S.propertyOrdering t).numbers_bound f (List.mem_of_getElem? hf)
  have hindex := indexOfFieldNumber_of_getElem? hf
  cases segment with
  | packed values =>
    rw [Segment.fields, List.flatMap_singleton] at hp hsize
    have hlength : (values.flatMap r.serialize).length ≤ maxByteArraySize := by
      simp only [packedField, WireField.bytes, prependLengthDelimitedSize, List.length_append]
        at hsize
      omega
    have hcomplete : (packedField r f.fieldNumber values).Complete env :=
      complete_encodeHeader hbound.1 hbound.2
        (.lengthDelimited _ _ (isVarint_serializeVarintCommon _) hlength)
    obtain ⟨q, hstep, hread, hmember⟩ := step_list hcomplete hindex hf (htype ▸ r.isPackable) hp (by
      rw [hgathers.content, htype]
      exact taken_packedField f.fieldNumber vs values hlength)
    refine ⟨q, .cons hstep (.nil q), base, values, hread, hmember.trans hgathers.member, rfl,
      fun h => ⟨rfl, ?_⟩⟩
    obtain ⟨rfl, hbase⟩ := hgathers.same h
    obtain rfl := hwhole h values rfl
    have hnone : base = [] := by
      rcases hbase with rfl | hshort
      · rfl
      · cases hshort
    rw [hnone]
    cases values with
    | nil => exact .inl rfl
    | cons v values => exact .inr (by simp)
  | unpacked values => exact steps_unpacked hf htype values old hp hgathers
  | other x =>
    obtain ⟨hfits, hnumber⟩ := hother x rfl
    rw [Segment.fields, List.flatMap_singleton] at hp
    obtain ⟨q, hstep⟩ := hfits.step hp
    have hkept := hstep.content i f hf (htype ▸ r.isPackable) fun h =>
      hnumber (fieldNumber_of_indexOfFieldNumber h hf).symm
    exact ⟨q, .cons hstep (.nil q), hgathers.kept htype hkept⟩

/-- The list the decoder reads. -/
def readAll (segments : List (Segment r)) (old : List r.Element) : List r.Element :=
  segments.foldl Segment.read old

/-- No element stands before a packed list, given the ones read before. -/
def PackedFirstFrom (old : List r.Element) (segments : List (Segment r)) : Prop :=
  ∀ before vs after, segments = before ++ .packed vs :: after →
    old ++ before.flatMap Segment.elements = []

/-- Behind the first segment, the same is true of the others and what was read then. -/
theorem PackedFirstFrom.tail {old : List r.Element} {segment : Segment r}
    {segments : List (Segment r)} (h : PackedFirstFrom old (segment :: segments)) :
    segment.read old = old ++ segment.elements ∧ PackedFirstFrom (segment.read old) segments := by
  have hread : segment.read old = old ++ segment.elements := by
    cases segment with
    | packed vs =>
      obtain rfl : old = [] := by simpa using h [] vs segments rfl
      rfl
    | unpacked vs => rfl
    | other x => simp [Segment.read, Segment.elements]
  refine ⟨hread, fun before vs after heq => ?_⟩
  rw [hread, List.append_assoc, ← List.flatMap_cons]
  exact h (segment :: before) vs after (by rw [heq, List.cons_append])

/-- The segments of the input are read one after another into the list. -/
theorem steps_segments (hf : (S.propertyOrdering t).fields[i]? = some f) (htype : f.type = r.type)
    {whole : Prop} (segments : List (Segment r)) (old : List r.Element)
    (hwhole : whole → PackedFirstFrom old segments)
    (hother : ∀ x, .other x ∈ segments → Fits env S t x ∧ x.fieldNumber ≠ f.fieldNumber)
    (hsize : ((segments.flatMap (·.fields f.fieldNumber)).flatMap WireField.bytes).length ≤
      maxByteArraySize) {p : LoopState} {input tail : Bytes} {frames : List Int}
    (hp : p.Ready S t ((segments.flatMap (·.fields f.fieldNumber)).flatMap WireField.bytes ++ input)
      tail frames) {base vs : List r.Element} (hgathers : p.Gathers i r whole old base vs) :
    ∃ q, p.Steps env S t (segments.flatMap (·.fields f.fieldNumber)) q ∧
      ∃ base vs, q.Gathers i r whole (readAll segments old) base vs := by
  induction segments generalizing p old base vs with
  | nil => exact ⟨p, .nil p, base, vs, hgathers⟩
  | cons segment segments ih =>
    simp only [List.flatMap_cons, List.flatMap_append, List.append_assoc, List.length_append]
      at hp hsize
    obtain ⟨q, hsteps, base', vs', hq⟩ := steps_segment hf htype segment old
      (fun h vs heq => by simpa using hwhole h [] vs segments (by rw [heq]; rfl))
      (fun x hx => hother x (by rw [hx]; exact List.mem_cons_self)) (by omega) hp hgathers
    obtain ⟨q', hsteps', hq'⟩ := ih (segment.read old) (fun h => (hwhole h).tail.2)
      (fun x hx => hother x (List.mem_cons_of_mem _ hx)) (by omega) (hsteps.ready hp) hq
    exact ⟨q', hsteps.append hsteps', hq'⟩

end

/-! ## Repeated fields concatenate unless a packed list replaces values -/

/-- A message of a type with a repeated field, as a sequence of segments. The fields in between
can be decoded and are other fields. -/
structure RepeatedMessage (env : Environment) (S : Schema) (t : MessageType) (r : RepeatedType) where
  index : Nat
  field : FieldInfo
  segments : List (Segment r)
  hfield : (S.propertyOrdering t).fields[index]? = some field
  htype : field.type = r.type
  hother : ∀ x, .other x ∈ segments → Fits env S t x ∧ x.fieldNumber ≠ field.fieldNumber
  hrequired : RequiredPresent S t (segments.flatMap (·.fields field.fieldNumber))

namespace RepeatedMessage

variable {env : Environment} {S : Schema} {t : MessageType} {r : RepeatedType}

/-- The encoded message. -/
def bytes (M : RepeatedMessage env S t r) : Bytes :=
  (M.segments.flatMap (·.fields M.field.fieldNumber)).flatMap WireField.bytes

/-- All elements on the wire. -/
def elements (M : RepeatedMessage env S t r) : List r.Element :=
  M.segments.flatMap Segment.elements

/-- The message is decoded, and its list has all elements in their order. -/
def Concatenates (M : RepeatedMessage env S t r) (s : Serializer) : Prop :=
  ∀ fuel, M.bytes.length < fuel →
    ∃ s' m, s.deserialize env S fuel t M.bytes = (s', m, .returned true) ∧
      m.member (.field M.index) = r.property M.elements

/-- The message is decoded with a list as long as the one the segments make one after the other, and
with this list if no element stands before a packed one. -/
theorem deserialize (M : RepeatedMessage env S t r) (s : Serializer)
    (hsize : M.bytes.length ≤ s.effectiveMaximumInputSize) :
    ∃ m vs, m.member (.field M.index) = r.property vs ∧
      vs.length = (readAll M.segments []).length ∧
      (PackedFirstFrom [] M.segments → vs = readAll M.segments []) ∧
      ∀ fuel, M.bytes.length < fuel →
        ∃ s', s.deserialize env S fuel t M.bytes = (s', m, .returned true) := by
  have hpackable : M.field.type.isPackable = true := M.htype ▸ r.isPackable
  have hready := LoopState.ready_start (S := S) s t M.bytes
  have hmember : (S.defaultMessage t).member (.field M.index) = r.property [] := by
    have hpresence := M.field.presence_of_isPackable hpackable
      ((S.propertyOrdering t).presence_fits _ (List.mem_of_getElem? M.hfield))
    have hdefault : (S.defaultMessage t).member (.field M.index) = M.field.storedDefault S := by
      simp [Schema.defaultMessage, Message.member, M.hfield]
    rw [hdefault, FieldInfo.storedDefault, hpresence, M.htype]
    cases r <;> rfl
  have hstart : (LoopState.start S s t M.bytes).Gathers M.index r
      (PackedFirstFrom [] M.segments) [] [] [] :=
    ⟨hmember, hmember, rfl, fun _ => ⟨rfl, .inl rfl⟩⟩
  have hlimit : M.bytes.length ≤ maxByteArraySize := by
    have hle := s.effectiveMaximumInputSize_le
    unfold maxSerializeMessageSizeLimit at hle
    unfold maxByteArraySize
    omega
  obtain ⟨q, hsteps, base, vs, hq⟩ := @steps_segments _ _ _ _ _ _ M.hfield M.htype _ M.segments []
    id M.hother hlimit (LoopState.start S s t M.bytes) [] _ _
    (by rwa [List.append_nil]) _ _ hstart
  obtain ⟨m, -, hcontent, hreturned⟩ := hsteps.deserialize M.hrequired hsize
  obtain ⟨ws, hstored, hlength, hsame⟩ := hq.stored S M.htype
  exact ⟨m, ws, by rw [hcontent _ _ M.hfield hpackable, hstored], hlength, hsame, hreturned⟩

end RepeatedMessage

section

variable {r : RepeatedType}

/-- No element stands before a packed list. -/
def PackedFirst (segments : List (Segment r)) : Prop :=
  ∀ before vs after, segments = before ++ .packed vs :: after →
    before.flatMap Segment.elements = []

/-- No more elements are read than were written. -/
theorem length_readAll_le (segments : List (Segment r)) (old : List r.Element) :
    (readAll segments old).length ≤ (old ++ segments.flatMap Segment.elements).length := by
  induction segments generalizing old with
  | nil => simp [readAll]
  | cons segment segments ih =>
    have h := ih (segment.read old)
    rw [readAll, List.foldl_cons]
    rw [readAll] at h
    cases segment <;> simp [Segment.read, Segment.elements] at h ⊢ <;> omega

/-- All elements are read if none stands before a packed list. -/
theorem readAll_of_packedFirst (segments : List (Segment r)) (old : List r.Element)
    (h : PackedFirstFrom old segments) :
    readAll segments old = old ++ segments.flatMap Segment.elements := by
  induction segments generalizing old with
  | nil => simp [readAll]
  | cons segment segments ih =>
    obtain ⟨hread, htail⟩ := h.tail
    have hrest := ih (segment.read old) htail
    rw [readAll] at hrest
    rw [readAll, List.foldl_cons, hrest, hread, List.flatMap_cons, List.append_assoc]

/-- Where as many elements are read as there are, none stands before a packed list. -/
theorem packedFirst_of_length (segments : List (Segment r)) (old : List r.Element)
    (h : (readAll segments old).length = (old ++ segments.flatMap Segment.elements).length) :
    PackedFirstFrom old segments := by
  induction segments generalizing old with
  | nil =>
    intro before vs after heq
    cases before <;> cases heq
  | cons segment segments ih =>
    rw [readAll, List.foldl_cons, List.flatMap_cons] at h
    have hle := length_readAll_le segments (segment.read old)
    rw [readAll] at hle
    have hold : ∀ vs, segment = .packed vs → old = [] := by
      rintro vs rfl
      simp only [Segment.read, Segment.elements, List.length_append] at h hle
      exact List.length_eq_zero_iff.mp (by omega)
    have hread : segment.read old = old ++ segment.elements := by
      cases segment with
      | packed vs =>
        rw [hold vs rfl]
        rfl
      | unpacked vs => rfl
      | other x => simp [Segment.read, Segment.elements]
    have htail := ih (segment.read old) (by
      rw [readAll, h, hread, List.append_assoc])
    intro before vs after heq
    cases before with
    | nil =>
      obtain ⟨rfl, -⟩ := List.cons.inj heq
      rw [hold vs rfl]
      rfl
    | cons first before =>
      obtain ⟨rfl, hrest⟩ := List.cons.inj heq
      have hnone := htail before vs after hrest
      rwa [hread, List.append_assoc, ← List.flatMap_cons] at hnone

end

/-- The list of a decoded message has all elements if and only if none stands before a packed
list. -/
theorem concatenates_iff (env : Environment) (S : Schema) (t : MessageType) (r : RepeatedType)
    (M : RepeatedMessage env S t r) (s : Serializer)
    (hsize : M.bytes.length ≤ s.effectiveMaximumInputSize) :
    M.Concatenates s ↔ PackedFirst M.segments := by
  obtain ⟨m, vs, hmember, hlength, hsame, hreturned⟩ := M.deserialize s hsize
  constructor
  · intro h
    obtain ⟨s', m', hresult, hmember'⟩ := h (M.bytes.length + 1) (by omega)
    obtain ⟨s'', hresult'⟩ := hreturned (M.bytes.length + 1) (by omega)
    rw [hresult] at hresult'
    cases hresult'
    obtain rfl := r.property_injective (hmember.symm.trans hmember')
    exact packedFirst_of_length M.segments [] (by rw [← hlength]; rfl)
  · intro h fuel hfuel
    obtain ⟨s', hresult⟩ := hreturned fuel hfuel
    refine ⟨s', m, hresult, ?_⟩
    rw [hmember, hsame h, readAll_of_packedFirst M.segments [] h]
    rfl

/-- A message type with a repeated number, a repeated enumeration and a text. -/
def sampleSchema : Schema where
  message
    | 0 => ⟨"Samples", [
        { fieldNumber := 1, jsonName := "values", type := .list .sint32 },
        { fieldNumber := 2, jsonName := "kinds", type := .enumList 0 },
        { fieldNumber := 3, jsonName := "label", type := .scalar .string }],
        by decide, by decide, by decide⟩
    | _ => .withoutFields "Empty"
  enumKeys _ := [("None", 0), ("Some", 1)]
  findHandler _ := none
  typeName _ := ""

/-- The label `a`. -/
def labelField : WireField where
  fieldNumber := 3
  wireType := .lengthDelimited
  header := [0x1A]
  payload := [0x01, 0x61]

/-- The field between the segments of the sample fits its message. -/
theorem fits_labelField : Fits nullTerminated sampleSchema (.named 0) labelField :=
  .plain (i := 2)
    ⟨by decide, by decide, ⟨26, by decide, by decide⟩, .lengthDelimited [1] [0x61] (by decide)
      (by decide)⟩
    (by decide) rfl (.scalar (k := .string) rfl .null)

/-- The sample schema requires no field. -/
theorem requiredPresent_sample (xs : List WireField) :
    RequiredPresent sampleSchema (.named 0) xs := by
  intro f hf hrequired
  have hnone : ∀ f ∈ (sampleSchema.propertyOrdering (.named 0)).fields,
      f.fieldFlags.required = false := by
    decide
  rw [hnone f hf] at hrequired
  cases hrequired

/-- A repeated number in segments, with the label among them. -/
def sampleMessage (segments : List (Segment (.scalar .sint32 rfl)))
    (hother : ∀ x, .other x ∈ segments → x = labelField) :
    RepeatedMessage nullTerminated sampleSchema (.named 0) (.scalar .sint32 rfl) where
  index := 0
  field := { fieldNumber := 1, jsonName := "values", type := .list .sint32 }
  segments := segments
  hfield := rfl
  htype := rfl
  hother x hx := by
    rw [hother x hx]
    exact ⟨fits_labelField, by decide⟩
  hrequired := requiredPresent_sample _

/-- A packed list, a label and two single elements. -/
def appendedMessage : RepeatedMessage nullTerminated sampleSchema (.named 0)
    (.scalar .sint32 rfl) :=
  sampleMessage [.packed [1#32, 2#32], .other labelField, .unpacked [3#32, 4#32]] (by simp)

/-- Two packed segments with another field between them are appended to one list. -/
theorem concatenates_iff_appended :
    appendedMessage.elements = [1#32, 2#32, 3#32, 4#32] ∧ appendedMessage.Concatenates .initial := by
  refine ⟨rfl, (concatenates_iff nullTerminated sampleSchema (.named 0) _ appendedMessage .initial
    (by decide)).mpr ?_⟩
  intro before vs after heq
  cases before with
  | nil => rfl
  | cons first before =>
    obtain ⟨-, hrest⟩ := List.cons.inj heq
    have hmem : Segment.packed vs ∈
        [Segment.other (r := .scalar .sint32 rfl) labelField, .unpacked [3#32, 4#32]] := by
      rw [hrest]
      simp
    simp at hmem

/-- The numbers one and two, each as a packed list of its own. -/
def splitMessage : RepeatedMessage nullTerminated sampleSchema (.named 0)
    (.scalar .sint32 rfl) :=
  sampleMessage [.packed [1#32], .packed [2#32]] (by simp)

/-- The second packed list replaces the first one. -/
theorem not_concatenates_split :
    splitMessage.bytes = [0x0A, 0x01, 0x02, 0x0A, 0x01, 0x04] ∧
      splitMessage.elements = [1#32, 2#32] ∧ ¬splitMessage.Concatenates .initial := by
  refine ⟨by decide, rfl, fun h => ?_⟩
  obtain ⟨m, vs, hmember, hlength, -, hreturned⟩ := splitMessage.deserialize .initial (by decide)
  obtain ⟨s', m', hresult, hmember'⟩ := h 7 (by decide)
  obtain ⟨s'', hresult'⟩ := hreturned 7 (by decide)
  rw [hresult] at hresult'
  cases hresult'
  obtain rfl := RepeatedType.property_injective (hmember.symm.trans hmember')
  exact absurd hlength (by decide)

end QtGrpc.Protobuf.Binary
