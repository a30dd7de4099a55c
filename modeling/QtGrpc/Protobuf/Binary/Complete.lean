import QtGrpc.Protobuf.Binary.Encoding
import QtGrpc.Protobuf.Binary.Steps

/-!
# Complete fields

A field of the wire format as a header and a payload of the extent its wire type asks for. The
readers take such a payload and leave the iterator behind it, whatever follows; `nextFieldIndex`
skips complete fields that the type does not have and stops at the payload of one that it has.
-/

namespace QtGrpc.Protobuf.Binary

variable (env : Environment)

/-- The bytes are one varint with this value. -/
def IsVarint (bytes : Bytes) (value : BitVec 64) : Prop :=
  varintLoop env 0 0 bytes = (bytes.length, some value)

instance (bytes : Bytes) (value : BitVec 64) : Decidable (IsVarint env bytes value) :=
  inferInstanceAs (Decidable (_ = _))

/-- A payload of the extent its wire type asks for. -/
inductive IsPayload : WireType → Bytes → Prop where
  | varint (bytes : Bytes) (value : BitVec 64) (h : IsVarint env bytes value) :
      IsPayload .varint bytes
  | fixed32 (bytes : Bytes) (h : bytes.length = 4) : IsPayload .fixed32 bytes
  | fixed64 (bytes : Bytes) (h : bytes.length = 8) : IsPayload .fixed64 bytes
  | lengthDelimited (length content : Bytes)
      (h : IsVarint env length (BitVec.ofNat 64 content.length))
      (hlength : content.length ≤ maxByteArraySize) :
      IsPayload .lengthDelimited (length ++ content)

/-- A field as it stands on the wire. -/
structure WireField where
  fieldNumber : Nat
  wireType : WireType
  header : Bytes
  payload : Bytes
deriving DecidableEq, Repr

/-- Its bytes. -/
def WireField.bytes (x : WireField) : Bytes := x.header ++ x.payload

/-- The header names the field and the payload is one of its wire type. -/
structure WireField.Complete (x : WireField) : Prop where
  number_pos : 0 < x.fieldNumber
  number_le : x.fieldNumber ≤ 2 ^ 29 - 1
  header : ∃ value, IsVarint env x.header value ∧
    (BitVec.setWidth 32 value).toNat = x.fieldNumber * 8 + x.wireType.number
  payload : IsPayload env x.wireType x.payload

variable {env}

/-- The loop stops at the last byte of a varint. -/
theorem varintLoop_append (k : Nat) (value : BitVec 64) (bytes rest : Bytes)
    (h : (varintLoop env k value bytes).2 ≠ none) :
    varintLoop env k value (bytes ++ rest) = varintLoop env k value bytes := by
  induction bytes generalizing k value with
  | nil => simp [varintLoop] at h
  | cons byte bytes ih =>
    rw [List.cons_append, varintLoop, varintLoop]
    by_cases hmore : continues byte
    · simp only [varintLoop, hmore, if_true] at h
      simp only [hmore, if_true, ih _ _ h]
    · simp only [hmore, Bool.false_eq_true, if_false]

/-- A varint is read as far as it goes. -/
theorem IsVarint.append {bytes : Bytes} {value : BitVec 64} (h : IsVarint env bytes value)
    (rest : Bytes) : varintLoop env 0 0 (bytes ++ rest) = (bytes.length, some value) := by
  rw [varintLoop_append 0 0 bytes rest (by rw [h]; simp), h]

/-- It has a byte. -/
theorem IsVarint.length_pos {bytes : Bytes} {value : BitVec 64} (h : IsVarint env bytes value) :
    0 < bytes.length := by
  have hpos := varintLoop_pos env 0 0 bytes (by rw [h]; simp)
  rwa [h] at hpos

/-- What the serializer writes for a value is a varint with the value. -/
theorem isVarint_serializeVarintCommon (value : BitVec 64) :
    IsVarint env (serializeVarintCommon value) value := by
  have h := varintLoop_serializeVarintCommon env value []
  rwa [List.append_nil] at h

/-- A varint in front is read. -/
theorem deserializeVarintCommon_of_isVarint {it : Iterator} {bytes rest : Bytes}
    {value : BitVec 64} (h : IsVarint env bytes value) (hrest : it.rest = bytes ++ rest) :
    deserializeVarintCommon env it = (it.advance bytes.length, some value) := by
  rw [deserializeVarintCommon, hrest, h.append]

/-- Behind the bytes that were read the rest is left. -/
theorem Iterator.rest_advance_append {it : Iterator} (hvalid : it.isValid) {bytes rest : Bytes}
    (hrest : it.rest = bytes ++ rest) : (it.advance bytes.length).rest = rest := by
  rw [Iterator.rest_advance hvalid (by simp [bytesLeft, hrest]), hrest, List.drop_left]

/-- Behind bytes in front the iterator is valid. -/
theorem Iterator.isValid_advance_append {it : Iterator} (hvalid : it.isValid) {bytes rest : Bytes}
    (hrest : it.rest = bytes ++ rest) : (it.advance bytes.length).isValid :=
  Iterator.isValid_advance hvalid (by simp [bytesLeft, hrest])

/-- Two moves are one. -/
theorem Iterator.advance_advance {it : Iterator} (hvalid : it.isValid) {m n : Nat}
    (hm : m ≤ it.bytesLeft) : (it.advance m).advance n = it.advance (m + n : Nat) := by
  have hnext := Iterator.isValid_advance hvalid hm
  simp only [Iterator.advance, hvalid, if_true] at hnext ⊢
  rw [if_pos hnext]
  congr 1
  push_cast
  ring

/-- The bytes left are those in front and those behind. -/
theorem Iterator.bytesLeft_append {it : Iterator} {bytes rest : Bytes}
    (hrest : it.rest = bytes ++ rest) : it.bytesLeft = bytes.length + rest.length := by
  rw [bytesLeft, hrest, List.length_append]

/-- A payload behind its length in front is read. -/
theorem IsPayload.deserializeLengthDelimited {it : Iterator} (hvalid : it.isValid)
    {length content rest : Bytes} (h : IsVarint env length (BitVec.ofNat 64 content.length))
    (hlength : content.length ≤ maxByteArraySize) (hrest : it.rest = length ++ content ++ rest) :
    deserializeLengthDelimited env it = (it.advance (length ++ content).length, some content) := by
  rw [List.append_assoc] at hrest
  have hleft := Iterator.bytesLeft_append hrest
  have hpos := h.length_pos
  have hnumber : (BitVec.ofNat 64 content.length).toNat = content.length := by
    rw [BitVec.toNat_ofNat, Nat.mod_eq_of_lt (by unfold maxByteArraySize at hlength; omega)]
  have hnext := Iterator.rest_advance_append hvalid hrest
  have hfits := Iterator.bytesLeft_append hnext
  rw [Binary.deserializeLengthDelimited, if_pos (by omega),
    deserializeVarintCommon_of_isVarint h hrest]
  simp only [hnumber]
  rw [if_pos ⟨Iterator.isValid_advance_append hvalid hrest, by omega, hlength⟩, hnext,
    List.take_left, Iterator.advance_advance hvalid (by omega), List.length_append]

/-- So are bytes of fixed width. -/
theorem deserializeFixed_of_length {it : Iterator} {bytes rest : Bytes}
    (hrest : it.rest = bytes ++ rest) :
    deserializeFixed bytes.length it = (it.advance bytes.length, some bytes) := by
  have hleft := Iterator.bytesLeft_append hrest
  rw [deserializeFixed, if_neg (by omega), hrest, List.take_left]

/-- A payload of the wire type of a scalar type is taken as a value that depends on nothing
else. -/
theorem IsPayload.exists_scalar {k : ScalarKind} {payload : Bytes}
    (h : IsPayload env k.wireType payload) :
    ∃ v, ∀ (it : Iterator) (rest : Bytes), it.isValid → it.rest = payload ++ rest →
      deserializeBasic env k it = (it.advance payload.length, some v) := by
  generalize hw : k.wireType = w at h
  cases h with
  | varint bytes value h =>
    refine ⟨ofVarint k value, fun it rest _ hrest => ?_⟩
    simp only [deserializeBasic, hw, deserializeVarintCommon_of_isVarint h hrest, Prod.map_apply,
      id_eq, Option.map_some]
  | fixed32 bytes h =>
    refine ⟨ofFixed k payload, fun it rest _ hrest => ?_⟩
    have hread := deserializeFixed_of_length hrest
    rw [h] at hread
    simp only [deserializeBasic, hw, hread, Prod.map_apply, id_eq, Option.map_some, h]
  | fixed64 bytes h =>
    refine ⟨ofFixed k payload, fun it rest _ hrest => ?_⟩
    have hread := deserializeFixed_of_length hrest
    rw [h] at hread
    simp only [deserializeBasic, hw, hread, Prod.map_apply, id_eq, Option.map_some, h]
  | lengthDelimited length content h hlength =>
    refine ⟨ofDelimited env k content, fun it rest hvalid hrest => ?_⟩
    simp only [deserializeBasic, hw, IsPayload.deserializeLengthDelimited hvalid h hlength hrest,
      Prod.map_apply, id_eq, Option.map_some]

variable (env) in
/-- The value of a payload. -/
def scalarOf (k : ScalarKind) (payload : Bytes) : k.Carrier :=
  (deserializeBasic env k (.fromView payload)).2.getD k.zero

/-- All bytes of a view are left in the beginning. -/
theorem rest_fromView (bytes : Bytes) : (Iterator.fromView bytes).rest = bytes := by
  rw [Iterator.rest, if_pos (Iterator.isValid_fromView bytes)]
  rfl

/-- A payload of a scalar type in front is read as its value. -/
theorem IsPayload.deserializeBasic {k : ScalarKind} {payload : Bytes}
    (h : IsPayload env k.wireType payload) {it : Iterator} {rest : Bytes} (hvalid : it.isValid)
    (hrest : it.rest = payload ++ rest) :
    deserializeBasic env k it = (it.advance payload.length, some (scalarOf env k payload)) := by
  obtain ⟨v, hv⟩ := h.exists_scalar
  have hview := hv (.fromView payload) [] (Iterator.isValid_fromView payload)
    (by rw [rest_fromView, List.append_nil])
  rw [hv it rest hvalid hrest, scalarOf, hview]
  rfl

/-- What is written for a value is a payload that is taken for this value, without the mark of a
string. -/
theorem scalarOf_serializeBasic (k : ScalarKind) (v : k.Carrier)
    (hlength : k.wireType = .lengthDelimited → (toDelimited k v).length ≤ maxByteArraySize) :
    IsPayload env k.wireType (serializeBasic k v) ∧
      scalarOf env k (serializeBasic k v) = k.unmarked v := by
  have hexact (hw : k.wireType ≠ .lengthDelimited) : k.unmarked v = v :=
    ScalarKind.unmarked_eq_self (by cases k <;> simp_all [ScalarKind.wireType,
      ScalarKind.isLengthDelimited]) v
  have hvalid (bytes : Bytes) : (Iterator.fromView bytes).isValid := by
    simp [Iterator.isValid, Iterator.fromView]
  have hrest (bytes : Bytes) : (Iterator.fromView bytes).rest = bytes ++ [] := by
    rw [rest_fromView, List.append_nil]
  cases hw : k.wireType with
  | varint =>
    have hvarint := @isVarint_serializeVarintCommon env (toVarint k v)
    simp only [serializeBasic, scalarOf, deserializeBasic, hw,
      deserializeVarintCommon_of_isVarint hvarint (hrest _), Prod.map_apply, id_eq,
      Option.map_some, Option.getD_some]
    rw [hexact (by simp [hw])]
    exact ⟨.varint _ _ hvarint, ofVarint_toVarint k hw v⟩
  | fixed32 =>
    have hsize : (toFixed k v).length = 4 := by
      cases k <;> cases hw <;> exact ByteOrder.length_toLittleEndian 4 _
    have hread := deserializeFixed_of_length (hrest (toFixed k v))
    rw [hsize] at hread
    simp only [serializeBasic, scalarOf, deserializeBasic, hw, hread, Prod.map_apply, id_eq,
      Option.map_some, Option.getD_some]
    rw [hexact (by simp [hw])]
    exact ⟨.fixed32 _ hsize, ofFixed_toFixed k (.inl hw) v⟩
  | fixed64 =>
    have hsize : (toFixed k v).length = 8 := by
      cases k <;> cases hw <;> exact ByteOrder.length_toLittleEndian 8 _
    have hread := deserializeFixed_of_length (hrest (toFixed k v))
    rw [hsize] at hread
    simp only [serializeBasic, scalarOf, deserializeBasic, hw, hread, Prod.map_apply, id_eq,
      Option.map_some, Option.getD_some]
    rw [hexact (by simp [hw])]
    exact ⟨.fixed64 _ hsize, ofFixed_toFixed k (.inr hw) v⟩
  | lengthDelimited =>
    have hvarint := @isVarint_serializeVarintCommon env
      (BitVec.ofNat 64 (toDelimited k v).length)
    have hread := IsPayload.deserializeLengthDelimited (hvalid _) hvarint (hlength hw)
      (hrest (prependLengthDelimitedSize (toDelimited k v)))
    rw [← prependLengthDelimitedSize] at hread
    simp only [serializeBasic, scalarOf, deserializeBasic, hw, hread, Prod.map_apply, id_eq,
      Option.map_some, Option.getD_some]
    exact ⟨.lengthDelimited _ _ hvarint (hlength hw), ofDelimited_toDelimited env k hw v⟩

/-- A payload with a wire type has a byte. -/
theorem IsPayload.length_pos {w : WireType} {payload : Bytes} (h : IsPayload env w payload) :
    0 < payload.length := by
  cases h with
  | varint bytes value h => exact h.length_pos
  | fixed32 bytes h => omega
  | fixed64 bytes h => omega
  | lengthDelimited length content h =>
    have hpos := h.length_pos
    rw [List.length_append]
    omega

/-- The elements of a packed list are taken one by one. -/
theorem listLoop_of_payloads {k : ScalarKind} (payloads : List Bytes)
    (h : ∀ payload ∈ payloads, IsPayload env k.wireType payload) (n : Nat) (it : Iterator)
    (rest : Bytes) (out : List k.Carrier) (hvalid : it.isValid)
    (hrest : it.rest = payloads.flatten ++ rest) (hn : payloads.flatten.length ≤ n) :
    listLoop env k (it.position + (payloads.flatten.length : Nat)) n it out =
      (it.advance payloads.flatten.length, some (out ++ payloads.map (scalarOf env k))) := by
  induction payloads generalizing n it out with
  | nil => cases n <;> simp [listLoop, Iterator.advance]
  | cons payload payloads ih =>
    have hpayload := h payload List.mem_cons_self
    have hpos := hpayload.length_pos
    rw [List.flatten_cons, List.append_assoc] at hrest
    rw [List.flatten_cons, List.length_append] at hn ⊢
    have hleft := Iterator.bytesLeft_append hrest
    cases n with
    | zero => omega
    | succ n =>
      have hnext := ih (fun p hp => h p (List.mem_cons_of_mem _ hp)) n
        (it.advance payload.length) (out ++ [scalarOf env k payload])
        (Iterator.isValid_advance_append hvalid hrest)
        (Iterator.rest_advance_append hvalid hrest) (by omega)
      rw [Iterator.position_advance hvalid, Iterator.advance_advance hvalid (by omega)] at hnext
      rw [listLoop, if_neg (by omega), hpayload.deserializeBasic hvalid hrest]
      simp only [List.map_cons]
      rw [List.append_assoc, List.singleton_append] at hnext
      rw [← hnext]
      congr 1
      push_cast
      omega

/-- A packed list in front is read as the values of its payloads. -/
theorem deserializeList_of_payloads {k : ScalarKind} {length : Bytes} {payloads : List Bytes}
    (h : ∀ payload ∈ payloads, IsPayload env k.wireType payload)
    (hlength : IsVarint env length (BitVec.ofNat 64 payloads.flatten.length))
    (hsize : payloads.flatten.length ≤ maxByteArraySize) {it : Iterator} {rest : Bytes}
    (hvalid : it.isValid) (hrest : it.rest = length ++ payloads.flatten ++ rest) :
    deserializeList env k it =
      (it.advance (length ++ payloads.flatten).length, some (payloads.map (scalarOf env k))) := by
  rw [List.append_assoc] at hrest
  have hleft := Iterator.bytesLeft_append hrest
  have hnumber : (BitVec.ofNat 64 payloads.flatten.length).toNat = payloads.flatten.length := by
    rw [BitVec.toNat_ofNat, Nat.mod_eq_of_lt (by unfold maxByteArraySize at hsize; omega)]
  have hnextValid := Iterator.isValid_advance_append hvalid hrest
  have hnext := Iterator.rest_advance_append hvalid hrest
  have hfits := Iterator.bytesLeft_append hnext
  rw [deserializeList, deserializeVarintCommon_of_isVarint hlength hrest]
  simp only [hnumber]
  rw [if_neg (by unfold maxByteArraySize at hsize; omega),
    if_pos (Iterator.isValid_advance_append hnextValid hnext),
    Iterator.position_advance hnextValid,
    listLoop_of_payloads payloads h _ _ rest [] hnextValid hnext (by omega),
    Iterator.advance_advance hvalid (by rw [hleft]; omega), List.nil_append, List.length_append]

/-! ## Headers, and fields that are skipped -/

/-- A wire type takes three bits. -/
theorem WireType.number_lt (w : WireType) : w.number < 8 := by
  cases w <;> decide

/-- The header of a complete field in front is decoded. -/
theorem decodeHeader_of_complete {x : WireField} (hx : x.Complete env) {it : Iterator}
    {rest : Bytes} (hrest : it.rest = x.header ++ rest) :
    decodeHeader env it = (it.advance x.header.length, some (x.fieldNumber, x.wireType)) := by
  obtain ⟨value, hvarint, hvalue⟩ := hx.header
  have hpos := hvarint.length_pos
  have hleft := Iterator.bytesLeft_append hrest
  have hnumber := WireType.number_lt x.wireType
  have hle := hx.number_le
  rw [decodeHeader, if_neg (by omega), deserializeVarintCommon_of_isVarint hvarint hrest]
  simp only [hvalue]
  rw [show (x.fieldNumber * 8 + x.wireType.number) % 8 = x.wireType.number by omega,
    show (x.fieldNumber * 8 + x.wireType.number) / 8 = x.fieldNumber by omega,
    WireType.ofNumber?_number]
  simp only
  rw [if_pos ⟨hle, hx.number_pos⟩]

/-- `skipVarint` stops where the varint ends. -/
theorem skipVarintLoop_of_varintLoop (k : Nat) (value : BitVec 64) (bytes : Bytes)
    (h : (varintLoop env k value bytes).2 ≠ none) :
    skipVarintLoop env bytes = some (varintLoop env k value bytes).1 := by
  induction bytes generalizing k value with
  | nil => simp [varintLoop] at h
  | cons byte bytes ih =>
    rw [skipVarintLoop, varintLoop]
    by_cases hmore : continues byte
    · simp only [varintLoop, hmore, if_true] at h
      simp only [hmore, if_true, ih _ _ h, Option.map_some]
    · simp only [hmore, Bool.false_eq_true, if_false]

/-- A complete payload is skipped to its end. -/
theorem IsPayload.skipPayload {w : WireType} {payload : Bytes} (h : IsPayload env w payload)
    {it : Iterator} {rest : Bytes} (hvalid : it.isValid) (hrest : it.rest = payload ++ rest) :
    skipPayload env w it = some (it.advance payload.length) := by
  cases h with
  | varint bytes value h =>
    have hread := h.append rest
    rw [Binary.skipPayload, skipVarint, hrest,
      skipVarintLoop_of_varintLoop 0 0 _ (by rw [hread]; simp), hread]
    rfl
  | fixed32 bytes h => rw [h]; rfl
  | fixed64 bytes h => rw [h]; rfl
  | lengthDelimited length content h hlength =>
    rw [List.append_assoc] at hrest
    have hleft := Iterator.bytesLeft_append hrest
    have hsigned : (BitVec.ofNat 64 content.length).toInt = content.length := by
      unfold maxByteArraySize at hlength
      have hnumber : (BitVec.ofNat 64 content.length).toNat = content.length := by
        rw [BitVec.toNat_ofNat, Nat.mod_eq_of_lt (by omega)]
      rw [BitVec.toInt_eq_toNat_of_lt (by omega), hnumber]
    rw [Binary.skipPayload, skipLengthDelimited, deserializeVarintCommon_of_isVarint h hrest]
    simp only [hsigned]
    rw [Iterator.advance_advance hvalid (by omega), List.length_append]

/-- The decoder stands, without an error, before some input up to the end of its frame. -/
structure Deserializer.At (d : Deserializer) (input tail : Bytes) (frames : List Int) : Prop where
  valid : d.it.isValid
  rest : d.it.rest = input ++ tail
  state : d.state = (d.it.position + (input.length : Nat)) :: frames
  noError : d.lastError = .none

/-- A field has been consumed. -/
def Deserializer.past (d : Deserializer) (t : MessageType) (x : WireField) : Deserializer :=
  { d.visit t (d.it.advance x.header.length) x.fieldNumber x.wireType with
    it := d.it.advance x.bytes.length }

/-- A field of an unknown number is kept if this is asked for. -/
def Deserializer.keep (d : Deserializer) (m : Message) (x : WireField) : Message :=
  if d.preserveUnknownFields then m.storeUnknownEntry x.bytes x.fieldNumber else m

/-- A complete field has a byte. -/
theorem WireField.Complete.length_pos {x : WireField} (hx : x.Complete env) :
    0 < x.bytes.length := by
  obtain ⟨value, hvarint, -⟩ := hx.header
  have hpos := hvarint.length_pos
  rw [WireField.bytes, List.length_append]
  omega

namespace Deserializer.At

variable {d : Deserializer} {x : WireField} {input tail : Bytes} {frames : List Int}

/-- Where a field is left, the frame is not at its end. -/
theorem inFrame (h : d.At (x.bytes ++ input) tail frames) (hx : x.Complete env) : d.inFrame := by
  have hpos := hx.length_pos
  refine ⟨h.valid, ?_⟩
  rw [h.state, List.head?_cons, ne_eq, Option.some.injEq, List.length_append]
  omega

/-- What is left is the field, the input behind it and what is behind the frame. -/
theorem restOf (h : d.At (x.bytes ++ input) tail frames) :
    d.it.rest = x.header ++ (x.payload ++ (input ++ tail)) := by
  rw [h.rest, WireField.bytes, List.append_assoc, List.append_assoc]

/-- Behind a field the decoder stands before the rest. -/
theorem moved {d' : Deserializer} (h : d.At (x.bytes ++ input) tail frames)
    (hit : d'.it = d.it.advance x.bytes.length) (hstate : d'.state = d.state)
    (herror : d'.lastError = d.lastError) : d'.At input tail frames := by
  have hrest := h.rest
  rw [List.append_assoc] at hrest
  refine ⟨?_, ?_, ?_, herror.trans h.noError⟩
  · rw [hit]
    exact Iterator.isValid_advance_append h.valid hrest
  · rw [hit]
    exact Iterator.rest_advance_append h.valid hrest
  · rw [hstate, h.state, hit, Iterator.position_advance h.valid, List.length_append]
    congr 1
    push_cast
    omega

/-- Behind a field the decoder stands before the rest of the input. -/
theorem past (h : d.At (x.bytes ++ input) tail frames) (t : MessageType) :
    (d.past t x).At input tail frames := h.moved rfl rfl rfl

end Deserializer.At

variable {S : Schema}

/-- The end of a frame ends its message. -/
theorem nextFieldIndex_end {d : Deserializer} {tail : Bytes} {frames : List Int}
    (h : d.At [] tail frames) (fuel : Nat) (t : MessageType) (m : Message) :
    nextFieldIndex env S (fuel + 1) t d m = ({ d with state := frames }, m, .finished) := by
  have hend : ¬ (d.it.isValid && d.state.head? != some d.it.position) = true := by
    simp [h.state]
  rw [nextFieldIndex, if_neg hend]
  simp [h.valid, h.state]

/-- A complete field that the type does not have is skipped. -/
theorem nextFieldIndex_unknown {d : Deserializer} {x : WireField} {input tail : Bytes}
    {frames : List Int} (hx : x.Complete env) (h : d.At (x.bytes ++ input) tail frames)
    {t : MessageType} (hindex : (S.propertyOrdering t).indexOfFieldNumber x.fieldNumber = none)
    (fuel : Nat) (m : Message) :
    nextFieldIndex env S (fuel + 1) t d m =
      nextFieldIndex env S fuel t (d.past t x) (d.keep m x) := by
  have hopen : (d.it.isValid && d.state.head? != some d.it.position) = true := by
    simpa [Deserializer.inFrame] using h.inFrame hx
  have hleft := Iterator.bytesLeft_append h.restOf
  have hpos := hx.length_pos
  have hskip := hx.payload.skipPayload (Iterator.isValid_advance_append h.valid h.restOf)
    (Iterator.rest_advance_append h.valid h.restOf)
  rw [Iterator.advance_advance h.valid (by omega), ← List.length_append, ← WireField.bytes] at hskip
  have hend : (d.it.advance x.bytes.length).isValid := (h.past t).valid
  have hdistance : (d.it.advance x.bytes.length).position - d.it.position = x.bytes.length := by
    rw [Iterator.position_advance h.valid]
    omega
  have htaken : d.it.rest.take x.bytes.length = x.bytes := by
    rw [h.rest, List.append_assoc, List.take_left]
  rw [nextFieldIndex, if_pos hopen, decodeHeader_of_complete hx h.restOf]
  simp only [hindex, skipField, Deserializer.visit, hskip, Option.map_some, hend, if_true,
    hdistance]
  rw [if_neg (by omega)]
  have hkept : (if (x.bytes.length : Int) > 0 ∧ d.preserveUnknownFields = true then
      m.storeUnknownEntry (d.it.rest.take (x.bytes.length : Int).toNat) x.fieldNumber else m) =
      d.keep m x := by
    rw [Int.toNat_natCast, htaken, Deserializer.keep]
    simp [hpos]
  rw [hkept]
  rfl

/-- At a field that is neither a message nor a map the decoder stops before its payload. -/
theorem nextFieldIndex_known {d : Deserializer} {x : WireField} {input tail : Bytes}
    {frames : List Int} (hx : x.Complete env) (h : d.At (x.bytes ++ input) tail frames)
    {t : MessageType} {i : Nat} {f : FieldInfo}
    (hindex : (S.propertyOrdering t).indexOfFieldNumber x.fieldNumber = some i)
    (hfield : (S.propertyOrdering t).fields[i]? = some f)
    (hplain : (f.fieldFlags.isMessage || f.fieldFlags.isMap) = false) (fuel : Nat) (m : Message) :
    nextFieldIndex env S (fuel + 1) t d m =
      (d.visit t (d.it.advance x.header.length) x.fieldNumber x.wireType, m, .field i) := by
  have hopen : (d.it.isValid && d.state.head? != some d.it.position) = true := by
    simpa [Deserializer.inFrame] using h.inFrame hx
  rw [nextFieldIndex, if_pos hopen, decodeHeader_of_complete hx h.restOf]
  simp only [hindex, hfield, enterField, hplain, Bool.false_eq_true, if_false]

/-- The decoder has opened the frame of a sub-message with this content. -/
def Deserializer.enter (d : Deserializer) (t : MessageType) (x : WireField) (content : Bytes) :
    Deserializer :=
  { d.visit t (d.it.advance x.header.length) x.fieldNumber x.wireType with
    it := d.it.advance (x.bytes.length - content.length : Nat)
    state := (d.it.position + (x.bytes.length : Nat)) :: d.state }

/-- At a field that is a message or a map the decoder opens a frame for its content. -/
theorem nextFieldIndex_enter {d : Deserializer} {x : WireField} {input tail : Bytes}
    {frames : List Int} (hx : x.Complete env) (h : d.At (x.bytes ++ input) tail frames)
    {length content : Bytes} (hpayload : x.payload = length ++ content)
    (hlength : IsVarint env length (BitVec.ofNat 64 content.length))
    (hsize : content.length ≤ maxByteArraySize) {t : MessageType} {i : Nat} {f : FieldInfo}
    (hindex : (S.propertyOrdering t).indexOfFieldNumber x.fieldNumber = some i)
    (hfield : (S.propertyOrdering t).fields[i]? = some f)
    (hmessage : (f.fieldFlags.isMessage || f.fieldFlags.isMap) = true) (fuel : Nat) (m : Message) :
    nextFieldIndex env S (fuel + 1) t d m = (d.enter t x content, m, .field i) ∧
      (d.enter t x content).At content (input ++ tail) d.state := by
  have hopen : (d.it.isValid && d.state.head? != some d.it.position) = true := by
    simpa [Deserializer.inFrame] using h.inFrame hx
  have hsplit := h.restOf
  rw [hpayload, List.append_assoc] at hsplit
  have hbytes : x.bytes.length = x.header.length + (length.length + content.length) := by
    rw [WireField.bytes, hpayload, List.length_append, List.length_append]
  have hleft := Iterator.bytesLeft_append hsplit
  have hheaderValid := Iterator.isValid_advance_append h.valid hsplit
  have hheaderRest := Iterator.rest_advance_append h.valid hsplit
  have hlengthValid := Iterator.isValid_advance_append hheaderValid hheaderRest
  have hlengthRest := Iterator.rest_advance_append hheaderValid hheaderRest
  have hfits := Iterator.bytesLeft_append hlengthRest
  have hit : (d.it.advance x.header.length).advance length.length =
      d.it.advance (x.bytes.length - content.length : Nat) := by
    rw [Iterator.advance_advance h.valid (by omega)]
    congr 2
    omega
  have hnumber : (BitVec.ofNat 64 content.length).toNat = content.length := by
    unfold maxByteArraySize at hsize
    rw [BitVec.toNat_ofNat, Nat.mod_eq_of_lt (by omega)]
  rw [hit] at hlengthValid hlengthRest hfits
  have hend : (d.it.advance (x.bytes.length - content.length : Nat)).position +
      (content.length : Nat) = d.it.position + (x.bytes.length : Nat) := by
    rw [Iterator.position_advance h.valid]
    omega
  refine ⟨?_, hlengthValid, hlengthRest, ?_, h.noError⟩
  · rw [nextFieldIndex, if_pos hopen, decodeHeader_of_complete hx h.restOf]
    simp only [hindex, hfield, enterField, hmessage, if_true, Deserializer.visit,
      deserializeVarintCommon_of_isVarint hlength hheaderRest, hit, hnumber, hlengthValid, hend]
    rw [if_neg (by simp; omega)]
    rfl
  · rw [Deserializer.enter, ← hend]

end QtGrpc.Protobuf.Binary
