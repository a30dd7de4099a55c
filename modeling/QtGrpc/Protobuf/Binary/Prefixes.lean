import QtGrpc.Protobuf.SerializerSteps
import QtGrpc.Protobuf.Binary.Complete
import QtGrpc.Protobuf.Binary.Instance
import QtGrpc.Protobuf.Binary.Progress

/-!
# The lengths the encoder writes

The encoder does not know the size of a payload before it is complete, and converts the size of a
sub-message to 32 bits when it writes it. Here the encoder is run with its output in chunks, which
remember where a length was written and what it was written for.
-/

namespace QtGrpc.Protobuf.Binary

/-- What the encoder writes, with the places where it writes a length. -/
inductive Chunk where
  | plain (bytes : Bytes)
  | delimited (header length : Bytes) (payload : List Chunk)

namespace Chunk

mutual

/-- The bytes of a chunk. -/
def bytes : Chunk → Bytes
  | .plain bytes => bytes
  | .delimited header length payload => header ++ length ++ flatten payload

/-- The bytes of chunks. -/
def flatten : List Chunk → Bytes
  | [] => []
  | c :: cs => c.bytes ++ flatten cs

end

/-- Every length in a chunk is the number of bytes of the payload behind it. -/
inductive Exact (env : Environment) : Chunk → Prop where
  | plain (bytes : Bytes) : Exact env (.plain bytes)
  | delimited (header : Bytes) {length : Bytes} {payload : List Chunk} {size : BitVec 64}
      (hlength : IsVarint env length size) (hsize : size.toNat = (flatten payload).length)
      (hpayload : ∀ c ∈ payload, c.Exact env) : Exact env (.delimited header length payload)

/-- Every length in a chunk was written for the size of its payload or for what 32 bits hold of
it. -/
inductive Prefixed : Chunk → Prop where
  | plain (bytes : Bytes) : Prefixed (.plain bytes)
  | delimited (header : Bytes) {payload : List Chunk} {size : Nat}
      (hsize : size = (flatten payload).length ∨ size = (flatten payload).length % 2 ^ 32)
      (hpayload : ∀ c ∈ payload, c.Prefixed) :
      Prefixed (.delimited header (serializeVarintCommon (BitVec.ofNat 64 size)) payload)

/-- The bytes of two lists of chunks one behind the other. -/
theorem flatten_append (cs cs' : List Chunk) : flatten (cs ++ cs') = flatten cs ++ flatten cs' := by
  induction cs with
  | nil => rfl
  | cons c cs ih => rw [List.cons_append, flatten, flatten, ih, List.append_assoc]

/-- The bytes of a single chunk are its own. -/
theorem flatten_singleton (c : Chunk) : flatten [c] = c.bytes := by
  rw [flatten, flatten, List.append_nil]

/-- A chunk is not longer than the chunks it is among. -/
theorem length_le_of_mem {c : Chunk} {cs : List Chunk} (h : c ∈ cs) :
    c.bytes.length ≤ (flatten cs).length := by
  induction cs with
  | nil => cases h
  | cons c' cs ih =>
    rw [flatten, List.length_append]
    rcases List.mem_cons.mp h with rfl | h
    · omega
    · have := ih h
      omega

/-- A chunk that 32 bits can count has exact lengths only. -/
theorem Prefixed.exact {env : Environment} {c : Chunk} (h : c.Prefixed)
    (hlength : c.bytes.length < 2 ^ 32) : c.Exact env := by
  induction h with
  | plain bytes => exact .plain bytes
  | delimited header hsize hpayload ih =>
    rename_i payload size
    rw [bytes, List.length_append] at hlength
    obtain rfl : size = (flatten payload).length := by omega
    refine .delimited header (isVarint_serializeVarintCommon _) ?_ fun c hc => ih c hc ?_
    · rw [BitVec.toNat_ofNat, Nat.mod_eq_of_lt (by omega)]
    · have := length_le_of_mem hc
      omega

/-- Data behind its length. -/
def ofData (header data : Bytes) : Chunk :=
  .delimited header (serializeVarintCommon (BitVec.ofNat 64 data.length)) [.plain data]

/-- The bytes of a chunk with data: its header, a length and the data. -/
theorem bytes_ofData (header data : Bytes) :
    (ofData header data).bytes = header ++ prependLengthDelimitedSize data := by
  rw [ofData, bytes, flatten_singleton, bytes, prependLengthDelimitedSize, List.append_assoc]

/-- The length before data is that of the data. -/
theorem prefixed_ofData (header data : Bytes) : (ofData header data).Prefixed := by
  refine .delimited header (.inl ?_) fun c hc => ?_
  · rw [flatten_singleton, bytes]
  · obtain rfl := List.mem_singleton.mp hc
    exact .plain data

/-- A header with a single value. -/
def ofValue (header : Bytes) (k : ScalarKind) (v : k.Carrier) : Chunk :=
  match k.wireType with
  | .lengthDelimited => ofData header (toDelimited k v)
  | _ => .plain (header ++ serializeBasic k v)

/-- The bytes of a chunk with a scalar are those the serializer writes for it. -/
theorem bytes_ofValue (header : Bytes) (k : ScalarKind) (v : k.Carrier) :
    (ofValue header k v).bytes = header ++ serializeBasic k v := by
  cases hw : k.wireType <;> simp [ofValue, hw, bytes, bytes_ofData, serializeBasic]

/-- A scalar that has a length before it has the right one. -/
theorem prefixed_ofValue (header : Bytes) (k : ScalarKind) (v : k.Carrier) :
    (ofValue header k v).Prefixed := by
  unfold ofValue
  split
  · exact prefixed_ofData _ _
  · exact .plain _

/-- A header with a packed list. -/
def ofList (header : Bytes) (k : ScalarKind) (vs : List k.Carrier) : Chunk :=
  if vs.isEmpty then .plain header else ofData header (vs.flatMap (serializeBasic k))

/-- The bytes of a chunk with a packed list are those the serializer writes for it. -/
theorem bytes_ofList (header : Bytes) (k : ScalarKind) (vs : List k.Carrier) :
    (ofList header k vs).bytes = header ++ serializeListType k vs := by
  unfold ofList serializeListType
  split
  · rw [bytes, List.append_nil]
  · rw [bytes_ofData]

/-- The length before a packed list is that of its items. -/
theorem prefixed_ofList (header : Bytes) (k : ScalarKind) (vs : List k.Carrier) :
    (ofList header k vs).Prefixed := by
  unfold ofList
  split
  · exact .plain header
  · exact prefixed_ofData _ _

/-- The bytes of one chunk for each item are those of a list that is not packed. -/
theorem flatten_map_ofValue (header : Bytes) (k : ScalarKind) (vs : List k.Carrier) :
    flatten (vs.map (ofValue header k)) = serializeNonPackedList k vs header := by
  induction vs with
  | nil => rfl
  | cons v vs ih =>
    rw [List.map_cons, flatten, ih, bytes_ofValue, serializeNonPackedList, serializeNonPackedList,
      List.flatMap_cons]

end Chunk

/-! ## The encoder with its output in chunks -/

/-- `QProtobufSerializerImpl`, its results in chunks. -/
structure ChunkImpl where
  result : List Chunk := []
  state : List (List Chunk) := []

def ChunkImpl.append (s : ChunkImpl) (chunks : List Chunk) : ChunkImpl :=
  { s with result := s.result ++ chunks }

/-- `integratedSerializer` in chunks. -/
def integratedChunks (value : Value) (nonPacked : Bool) (fieldNumber : Nat) :
    Option (List Chunk) :=
  match value with
  | .scalar ⟨k, v⟩ =>
    if nonPacked then none else some [.ofValue (encodeHeader fieldNumber k.wireType) k v]
  | .scalars k vs =>
    if nonPacked then
      if k.isLengthDelimited then none
      else some (vs.map (.ofValue (encodeHeader fieldNumber k.wireType) k))
    else if k.isLengthDelimited then
      some (vs.map (.ofValue (encodeHeader fieldNumber .lengthDelimited) k))
    else some [.ofList (encodeHeader fieldNumber .lengthDelimited) k vs]
  | _ => none

/-- `serializeEnum` in chunks. -/
def serializeEnumChunks (f : FieldInfo) (value : Value) (s : ChunkImpl) : ChunkImpl × Bool :=
  if f.fieldFlags.repeated then
    match value with
    | .enumerators _ vs =>
      let listValue := vs.map (BitVec.signExtend 64)
      if listValue.isEmpty then (s, true)
      else if f.fieldFlags.nonPacked then
        (s.append (listValue.map (.ofValue (encodeHeader f.fieldNumber .varint) .int64)), true)
      else
        (s.append [.ofList (encodeHeader f.fieldNumber .lengthDelimited) .int64 listValue], true)
    | _ => (s, false)
  else
    match value with
    | .enumerator _ v =>
      let number : BitVec 64 := BitVec.signExtend 64 v
      if !ScalarKind.isPresent .int64 number && !mustSerializeDefaultValue f.fieldFlags then (s, true)
      else (s.append [.ofValue (encodeHeader f.fieldNumber .varint) .int64 number], true)
    | _ => (s, false)

/-- `serializeScalarField` in chunks. -/
def serializeScalarChunks (f : FieldInfo) (value : Value) (s : ChunkImpl) : ChunkImpl × Bool :=
  match integratedChunks value f.fieldFlags.nonPacked f.fieldNumber with
  | none => (s, false)
  | some chunks =>
    if !integratedIsPresent value && !mustSerializeDefaultValue f.fieldFlags then (s, true)
    else (s.append chunks, true)

/-- `serializeUnknownFields` in chunks: the fields are written as they were received. -/
def serializeUnknownChunks (order : HashOrder) (preserveUnknownFields : Bool) (m : Message)
    (s : ChunkImpl) : ChunkImpl :=
  if preserveUnknownFields then
    s.append [.plain ((order.unknownEntries m.unknownEntries).flatMap
      fun (_, fields) => fields.flatten)]
  else s

/-- `serializeMessageFieldEnd` in chunks. -/
def serializeMessageFieldEndChunks (order : HashOrder) (preserveUnknownFields : Bool) (m : Message)
    (f : FieldInfo) (s : ChunkImpl) : ChunkImpl :=
  let s := serializeUnknownChunks order preserveUnknownFields m s
  { result := s.state.headD [] ++ [.delimited (encodeHeader f.fieldNumber .lengthDelimited)
      (serializeVarintCommon (BitVec.ofNat 64 ((Chunk.flatten s.result).length % 2 ^ 32))) s.result]
    state := s.state.tail }

/-- `QProtobufSerializerImpl` as a format, its output in chunks. -/
def chunkFormat (order : HashOrder) (preserveUnknownFields : Bool) : SerializerFormat ChunkImpl where
  serializeEnum := serializeEnumChunks
  serializeScalarField := serializeScalarChunks
  serializeMessageFieldBegin := fun s => { result := [], state := s.result :: s.state }
  serializeMessageFieldEnd := serializeMessageFieldEndChunks order preserveUnknownFields
  interceptMessageField := fun _ _ _ _ => none

/-- The chunks that a serializer writes for a message. -/
def SerializerPrivate.writtenChunks (order : HashOrder) (S : Schema) (fuel : Nat)
    (d : SerializerPrivate) (t : MessageType) (m : Message) : Option (List Chunk) :=
  (Protobuf.serializeMessage (chunkFormat order d.preserveUnknownFields) S order fuel t m
    { state := {}, defaultMessageTypes := d.serializer.defaultMessageTypes }).map fun x =>
      (serializeUnknownChunks order d.preserveUnknownFields m x.state).result

/-- The output in bytes is that in chunks, and every length in a chunk was written for its
payload. -/
structure Chunked (s : SerializerImpl) (c : ChunkImpl) : Prop where
  result : s.result = Chunk.flatten c.result
  state : s.state = c.state.map Chunk.flatten
  prefixed_result : ∀ x ∈ c.result, x.Prefixed
  prefixed_state : ∀ chunks ∈ c.state, ∀ x ∈ chunks, x.Prefixed

/-- What is written in both ways is written in both ways behind something else. -/
theorem Chunked.append {s : SerializerImpl} {c : ChunkImpl} (h : Chunked s c) {bytes : Bytes}
    {chunks : List Chunk} (hbytes : bytes = Chunk.flatten chunks)
    (hprefixed : ∀ x ∈ chunks, x.Prefixed) : Chunked (s.append bytes) (c.append chunks) where
  result := by
    simp only [SerializerImpl.append, ChunkImpl.append, Chunk.flatten_append, h.result, hbytes]
  state := h.state
  prefixed_result := by
    intro x hx
    rcases List.mem_append.mp hx with hx | hx
    · exact h.prefixed_result x hx
    · exact hprefixed x hx
  prefixed_state := h.prefixed_state

/-- Every item of a list that is not packed has the right length before it. -/
theorem prefixed_map_ofValue (header : Bytes) (k : ScalarKind) (vs : List k.Carrier) :
    ∀ x ∈ vs.map (Chunk.ofValue header k), x.Prefixed := by
  intro x hx
  obtain ⟨v, -, rfl⟩ := List.mem_map.mp hx
  exact Chunk.prefixed_ofValue header k v

/-- One chunk with the right length in front may be added. -/
theorem Chunked.append_one {s : SerializerImpl} {c : ChunkImpl} (h : Chunked s c) {bytes : Bytes}
    {chunk : Chunk} (hbytes : chunk.bytes = bytes) (hprefixed : chunk.Prefixed) :
    Chunked (s.append bytes) (c.append [chunk]) :=
  h.append (by rw [Chunk.flatten_singleton, hbytes]) (by simpa using hprefixed)

/-- Both encoders know the same types, and write the same bytes for them. -/
theorem integratedChunks_spec (value : Value) (nonPacked : Bool) (fieldNumber : Nat) :
    Option.Rel (fun bytes chunks => bytes = Chunk.flatten chunks ∧ ∀ x ∈ chunks, x.Prefixed)
      (integratedSerializer value nonPacked fieldNumber)
      (integratedChunks value nonPacked fieldNumber) := by
  cases value with
  | scalar v =>
    cases nonPacked with
    | true => exact .none
    | false => exact .some ⟨by rw [Chunk.flatten_singleton, Chunk.bytes_ofValue],
        by simpa using Chunk.prefixed_ofValue _ _ _⟩
  | scalars k vs =>
    simp only [integratedSerializer, integratedChunks]
    cases nonPacked <;> cases k.isLengthDelimited
    · exact .some ⟨by rw [Chunk.flatten_singleton, Chunk.bytes_ofList],
        by simpa using Chunk.prefixed_ofList _ _ _⟩
    · exact .some ⟨(Chunk.flatten_map_ofValue _ _ _).symm, prefixed_map_ofValue _ _ _⟩
    · exact .some ⟨(Chunk.flatten_map_ofValue _ _ _).symm, prefixed_map_ofValue _ _ _⟩
    · exact .none
  | _ => exact .none

/-- The chunks of an enum field have the bytes that are written for it. -/
theorem serializeEnumChunks_chunked (f : FieldInfo) (value : Value) {s : SerializerImpl}
    {c : ChunkImpl} (h : Chunked s c) :
    Chunked (serializeEnum f value s).1 (serializeEnumChunks f value c).1 := by
  unfold serializeEnum serializeEnumChunks
  split
  · cases value with
    | enumerators e vs =>
      simp only
      split
      · exact h
      · split
        · exact h.append (Chunk.flatten_map_ofValue _ .int64 _).symm (prefixed_map_ofValue _ _ _)
        · exact h.append_one (Chunk.bytes_ofList _ _ _) (Chunk.prefixed_ofList _ _ _)
    | _ => exact h
  · cases value with
    | enumerator e v =>
      simp only
      split
      · exact h
      · exact h.append_one (Chunk.bytes_ofValue _ _ _) (Chunk.prefixed_ofValue _ _ _)
    | _ => exact h

/-- The chunks of the unknown fields have the bytes that are written for them. -/
theorem serializeUnknownChunks_chunked (order : HashOrder) (preserve : Bool) (m : Message)
    {s : SerializerImpl} {c : ChunkImpl} (h : Chunked s c) :
    Chunked (serializeUnknownFields order preserve m s)
      (serializeUnknownChunks order preserve m c) := by
  unfold serializeUnknownFields serializeUnknownChunks
  split
  · exact h.append_one rfl (.plain _)
  · exact h

/-- The chunks of a message field have the bytes that are written where the field ends. -/
theorem serializeMessageFieldEndChunks_chunked (order : HashOrder) (preserve : Bool) (m : Message)
    (f : FieldInfo) {s : SerializerImpl} {c : ChunkImpl} (h : Chunked s c) :
    Chunked (serializeMessageFieldEnd order preserve m f s)
      (serializeMessageFieldEndChunks order preserve m f c) := by
  have hunknown := serializeUnknownChunks_chunked order preserve m h
  unfold serializeMessageFieldEnd serializeMessageFieldEndChunks
  generalize serializeUnknownFields order preserve m s = s',
    serializeUnknownChunks order preserve m c = c' at hunknown ⊢
  have hdelimited : ∀ x ∈ [Chunk.delimited (encodeHeader f.fieldNumber .lengthDelimited)
      (serializeVarintCommon (BitVec.ofNat 64 ((Chunk.flatten c'.result).length % 2 ^ 32)))
      c'.result], x.Prefixed := by
    simpa using .delimited _ (.inr rfl) hunknown.prefixed_result
  constructor
  · simp only [Chunk.flatten_append, Chunk.flatten_singleton, Chunk.bytes, hunknown.result,
      hunknown.state, List.append_assoc]
    cases c'.state with
    | nil => rfl
    | cons chunks rest => rfl
  · simp only [hunknown.state, List.map_tail]
  · intro x hx
    rcases List.mem_append.mp hx with hx | hx
    · cases hstate : c'.state with
      | nil => simp [hstate] at hx
      | cons chunks rest =>
        exact hunknown.prefixed_state chunks (by simp [hstate]) x (by simpa [hstate] using hx)
    · exact hdelimited x hx
  · intro chunks hchunks
    exact hunknown.prefixed_state chunks (List.mem_of_mem_tail hchunks)

/-- The format that makes chunks follows the one that writes bytes. -/
theorem chunkFormat_related (order : HashOrder) (preserve : Bool) :
    (serializerFormat order preserve).Related (chunkFormat order preserve) Chunked where
  serializeEnum f v _ _ h := serializeEnumChunks_chunked f v h
  serializeScalarField f v s c h := by
    have hspec := integratedChunks_spec v f.fieldFlags.nonPacked f.fieldNumber
    simp only [serializerFormat, chunkFormat, serializeScalarField, serializeScalarChunks]
    generalize integratedSerializer v f.fieldFlags.nonPacked f.fieldNumber = o,
      integratedChunks v f.fieldFlags.nonPacked f.fieldNumber = o' at hspec
    cases hspec with
    | none => exact h
    | some hboth =>
      simp only
      split
      · exact h
      · exact h.append hboth.1 hboth.2
  isScalar f v s c h := by
    have hspec := integratedChunks_spec v f.fieldFlags.nonPacked f.fieldNumber
    simp only [serializerFormat, chunkFormat, serializeScalarField, serializeScalarChunks]
    generalize integratedSerializer v f.fieldFlags.nonPacked f.fieldNumber = o,
      integratedChunks v f.fieldFlags.nonPacked f.fieldNumber = o' at hspec
    cases hspec with
    | none => rfl
    | some hboth =>
      simp only
      split <;> rfl
  serializeMessageFieldBegin s c h :=
    ⟨rfl, by simp only [chunkFormat, serializerFormat, serializeMessageFieldBegin, h.result, h.state,
      List.map_cons], by simp [chunkFormat], by
        simpa [chunkFormat] using ⟨h.prefixed_result, h.prefixed_state⟩⟩
  serializeMessageFieldEnd m f s c h := serializeMessageFieldEndChunks_chunked order preserve m f h
  interceptMessageField _ _ _ _ _ _ := .none

/-- Whenever a message was serialized without an error, every length in the output is the number
of the payload bytes behind it. -/
theorem lengthPrefixes_exact (env : Environment) (order : HashOrder) (S : Schema) (fuel : Nat)
    (d d' : SerializerPrivate) (t : MessageType) (m : Message) (data : Bytes)
    (h : d.serializeMessage order S fuel t m = (d', some data))
    (herror : d'.base.deserializer.lastError = .none) :
    ∃ chunks, d.writtenChunks order S fuel t m = some chunks ∧ Chunk.flatten chunks = data ∧
      ∀ c ∈ chunks, c.Exact env := by
  have hstart : SerializerBase.Alike Chunked
      { state := {}, defaultMessageTypes := d.serializer.defaultMessageTypes }
      { state := {}, defaultMessageTypes := d.serializer.defaultMessageTypes } :=
    ⟨⟨rfl, rfl, by simp, by simp⟩, rfl⟩
  have hrun := @serializeMessage_related _ _ _ _ _ S order
    (chunkFormat_related order d.preserveUnknownFields) fuel t m _ _ hstart
  have hpreserve : d.clearError.preserveUnknownFields = d.preserveUnknownFields := rfl
  have hserializer : d.clearError.serializer = d.serializer := rfl
  simp only [SerializerPrivate.serializeMessage, hpreserve, hserializer] at h
  unfold SerializerPrivate.writtenChunks
  generalize Protobuf.serializeMessage (serializerFormat order d.preserveUnknownFields) S order fuel
      t m { state := {}, defaultMessageTypes := d.serializer.defaultMessageTypes } = o,
    Protobuf.serializeMessage (chunkFormat order d.preserveUnknownFields) S order fuel t m
      { state := {}, defaultMessageTypes := d.serializer.defaultMessageTypes } = o' at h hrun ⊢
  cases hrun with
  | none => simp at h
  | some hx =>
    rename_i x x'
    have hunknown := serializeUnknownChunks_chunked order d.preserveUnknownFields m hx.state
    refine ⟨_, rfl, ?_⟩
    simp only at h
    split at h
    · obtain ⟨rfl, -⟩ := Prod.mk.inj h
      cases herror
    · rename_i hsize
      obtain ⟨-, hdata⟩ := Prod.mk.inj h
      obtain rfl := Option.some.inj hdata
      refine ⟨hunknown.result.symm, fun c hc => (hunknown.prefixed_result c hc).exact ?_⟩
      have hle := Chunk.length_le_of_mem hc
      have hlimit : maxSerializeMessageSizeLimit < 2 ^ 32 := by decide
      rw [← hunknown.result] at hle
      omega

/-- A message type that contains itself, with a text. -/
def linkedSchema : Schema where
  message _ := ⟨"Link", [
      { fieldNumber := 1, jsonName := "next", type := .message 0 },
      { fieldNumber := 2, jsonName := "label", type := .scalar .string }],
      by decide, by decide, by decide⟩
  enumKeys _ := []
  findHandler _ := none
  typeName _ := ""

/-- The label `a` within another message. -/
def linkedMessage : Message :=
  (linkedSchema.defaultMessage (.named 0)).setMember (.field 0) (.message 0
    ((linkedSchema.defaultMessage (.named 0)).setMember (.field 1) (.scalar ⟨.string, "a"⟩)))

/-- A message inside another: both lengths are in front of what they count. -/
theorem lengthPrefixes_exact_linked :
    ∃ chunks, (SerializerPrivate.new {}).writtenChunks .ofInsertion linkedSchema 3 (.named 0)
        linkedMessage = some chunks ∧
      Chunk.flatten chunks = [0x0A, 0x03, 0x12, 0x01, 0x61] ∧
      ∀ c ∈ chunks, c.Exact nullTerminated :=
  lengthPrefixes_exact nullTerminated .ofInsertion linkedSchema 3 (SerializerPrivate.new {})
    ((SerializerPrivate.new {}).serializeMessage .ofInsertion linkedSchema 3 (.named 0)
      linkedMessage).1 (.named 0) linkedMessage [0x0A, 0x03, 0x12, 0x01, 0x61] rfl rfl

end QtGrpc.Protobuf.Binary
