import QtGrpc.Protobuf.DeserializerSteps
import QtGrpc.Protobuf.Binary.Deserializer

/-!
# What one iteration of `nextFieldIndex` can do

The cases of an iteration over the fields of a binary message, and what the functions of the
binary format change besides the position of the iterator.
-/

namespace QtGrpc.Protobuf.Binary

variable (env : Environment) (S : Schema)

/-- The frame of the message goes on. -/
def Deserializer.inFrame (d : Deserializer) : Prop :=
  d.it.isValid ∧ d.state.head? ≠ some d.it.position

/-- The state in which `nextFieldIndex` ends a message. -/
def Deserializer.leaveFrame (d : Deserializer) : Deserializer :=
  { (if d.it.isValid then d else d.setUnexpectedEndOfStreamError) with state := d.state.tail }

/-- What `nextFieldIndex` returns, in terms of its first iteration. -/
inductive NextStep (fuel : Nat) (t : MessageType) (d : Deserializer) (m : Message) :
    Deserializer × Message × NextField → Prop where
  | ended (h : ¬d.inFrame) : NextStep fuel t d m (d.leaveFrame, m, .finished)
  | badHeader (it : Iterator) (h : d.inFrame) (hheader : decodeHeader env d.it = (it, none)) :
      NextStep fuel t d m ({ d with it }.setError .invalidHeader
        "Message received doesn't contain valid header byte.", m, .finished)
  | stuck (it : Iterator) (n : Nat) (w : WireType) (h : d.inFrame)
      (hheader : decodeHeader env d.it = (it, some (n, w)))
      (hindex : (S.propertyOrdering t).indexOfFieldNumber n = none)
      (hskip : skipPayload env w it = none) :
      NextStep fuel t d m (d.visit t it n w, m, .outOfFuel)
  | overrun (it it' : Iterator) (n : Nat) (w : WireType) (h : d.inFrame)
      (hheader : decodeHeader env d.it = (it, some (n, w)))
      (hindex : (S.propertyOrdering t).indexOfFieldNumber n = none)
      (hskip : skipPayload env w it = some it') (hvalid : it'.isValid = false) :
      NextStep fuel t d m
        ({ d.visit t it n w with it := it' }.setUnexpectedEndOfStreamError, m, .finished)
  | backwards (it it' : Iterator) (n : Nat) (w : WireType) (h : d.inFrame)
      (hheader : decodeHeader env d.it = (it, some (n, w)))
      (hindex : (S.propertyOrdering t).indexOfFieldNumber n = none)
      (hskip : skipPayload env w it = some it') (hvalid : it'.isValid)
      (hback : it'.position < d.it.position) :
      NextStep fuel t d m ({ d.visit t it n w with it := it' }, m, .finished)
  | skipped (it it' : Iterator) (n : Nat) (w : WireType) (m' : Message) (h : d.inFrame)
      (hheader : decodeHeader env d.it = (it, some (n, w)))
      (hindex : (S.propertyOrdering t).indexOfFieldNumber n = none)
      (hskip : skipPayload env w it = some it') (hvalid : it'.isValid)
      (hforward : d.it.position ≤ it'.position)
      (hm : m' = if 0 < it'.position - d.it.position ∧ d.preserveUnknownFields then
        m.storeUnknownEntry (d.it.rest.take (it'.position - d.it.position).toNat) n else m) :
      NextStep fuel t d m
        (nextFieldIndex env S fuel t { d.visit t it n w with it := it' } m')
  | noField (it : Iterator) (n : Nat) (w : WireType) (i : Nat) (h : d.inFrame)
      (hheader : decodeHeader env d.it = (it, some (n, w)))
      (hindex : (S.propertyOrdering t).indexOfFieldNumber n = some i)
      (hfield : (S.propertyOrdering t).fields[i]? = none) :
      NextStep fuel t d m (d.visit t it n w, m, .field i)
  | known (it : Iterator) (n : Nat) (w : WireType) (i : Nat) (f : FieldInfo) (h : d.inFrame)
      (hheader : decodeHeader env d.it = (it, some (n, w)))
      (hindex : (S.propertyOrdering t).indexOfFieldNumber n = some i)
      (hfield : (S.propertyOrdering t).fields[i]? = some f) :
      NextStep fuel t d m ((enterField env f i (d.visit t it n w)).1, m,
        (enterField env f i (d.visit t it n w)).2)

/-- `nextFieldIndex` does one of the things listed. -/
theorem nextFieldIndex_step (fuel : Nat) (t : MessageType) (d : Deserializer) (m : Message) :
    NextStep env S fuel t d m (nextFieldIndex env S (fuel + 1) t d m) := by
  by_cases h : d.inFrame
  · have hopen : (d.it.isValid && d.state.head? != some d.it.position) = true := by
      simpa [Deserializer.inFrame] using h
    rw [nextFieldIndex, if_pos hopen]
    rcases hheader : decodeHeader env d.it with ⟨it, _ | ⟨n, w⟩⟩
    · exact .badHeader it h hheader
    · cases hindex : (S.propertyOrdering t).indexOfFieldNumber n with
      | none =>
        cases hskip : skipPayload env w it with
        | none =>
          simp only [hindex, skipField, Deserializer.visit, hskip, Option.map_none]
          exact .stuck it n w h hheader hindex hskip
        | some it' =>
          simp only [hindex, skipField, Deserializer.visit, hskip, Option.map_some]
          by_cases hvalid : it'.isValid
          · by_cases hback : it'.position < d.it.position
            · have hlength : it'.position - d.it.position < 0 := by omega
              simp only [hvalid, if_true, hlength]
              exact .backwards it it' n w h hheader hindex hskip hvalid hback
            · have hlength : ¬it'.position - d.it.position < 0 := by omega
              simp only [hvalid, if_true, hlength, if_false]
              exact .skipped it it' n w _ h hheader hindex hskip hvalid (by omega) rfl
          · simp only [hvalid, Bool.false_eq_true, if_false, Int.reduceNeg, Int.reduceLT, if_true]
            exact .overrun it it' n w h hheader hindex hskip (by simpa using hvalid)
      | some i =>
        cases hfield : (S.propertyOrdering t).fields[i]? with
        | none =>
          simp only [hindex, hfield]
          exact .noField it n w i h hheader hindex hfield
        | some f =>
          simp only [hindex, hfield]
          exact .known it n w i f h hheader hindex hfield
  · have hclosed : ¬(d.it.isValid && d.state.head? != some d.it.position) = true := by
      simpa [Deserializer.inFrame] using h
    rw [nextFieldIndex, if_neg hclosed]
    have hleave := @NextStep.ended env S fuel t d m h
    unfold Deserializer.leaveFrame at hleave
    split at hleave <;> simp_all [Deserializer.setUnexpectedEndOfStreamError, Deserializer.setError]

/-- A function of the format read some bytes and left the rest of the decoder alone, but for its
error. -/
structure Consumes (d d' : Deserializer) : Prop where
  reads : Reads d.it d'.it
  visits : d'.visits = d.visits
  state : d'.state = d.state

/-- Nothing is consumed. -/
theorem Consumes.refl (d : Deserializer) : Consumes d d := ⟨.refl _, rfl, rfl⟩

/-- An error consumes nothing. -/
theorem setError_consumes (d : Deserializer) (error : SerializerError) (text : String) :
    Consumes d (d.setError error text) := ⟨.refl _, rfl, rfl⟩

/-- Every handler of a scalar type stays within the bytes that are left. -/
theorem integratedDeserializer_reads (type : PropertyType) (nonPacked : Bool) (it : Iterator)
    (value : Value) : Reads it (integratedDeserializer env type nonPacked it value).1 := by
  unfold integratedDeserializer
  split
  · exact deserializeBasic_reads env _ it
  · split
    · split
      · exact deserializeBasic_reads env _ it
      · exact deserializeList_reads env _ it
    · exact .refl it
  · exact .refl it

/-- So does the reading of a scalar field. -/
theorem deserializeScalarField_consumes (f : FieldInfo) (d : Deserializer) (value : Value) :
    Consumes d (deserializeScalarField env S f d value).1 := by
  unfold deserializeScalarField
  simp only
  split
  · exact .refl d
  · split
    · exact setError_consumes ..
    · have hread := integratedDeserializer_reads env f.type
        (d.wireType != .lengthDelimited && f.fieldFlags.repeated) d.it value
      split
      case h_1 it v hresult =>
        rw [hresult] at hread
        exact ⟨hread, rfl, rfl⟩
      case h_2 it hresult =>
        rw [hresult] at hread
        exact ⟨hread, rfl, rfl⟩

variable {env S} in
/-- A field of a type that is decoded from messages is left to its handler. -/
theorem deserializeScalarField_of_isMessage {f : FieldInfo} (hf : f.type.isMessage)
    (d : Deserializer) (v : Value) : deserializeScalarField env S f d v = (d, v, false) := by
  unfold deserializeScalarField
  cases htype : f.type <;> simp_all [integratedWireType, PropertyType.isMessage]

/-- So does the reading of an enum field. -/
theorem deserializeEnum_consumes (f : FieldInfo) (d : Deserializer) (value : Value) :
    Consumes d (deserializeEnum env f d value).1 := by
  unfold deserializeEnum
  split
  · split
    · rename_i vs _
      have hlist := deserializeList_reads env .int64 d.it
      have hnonPacked :=
        deserializeNonPackedList_reads env .int64 d.it (vs.map (BitVec.signExtend 64))
      cases d.wireType
      case varint =>
        simp only
        split <;> exact ⟨hnonPacked, rfl, rfl⟩
      case lengthDelimited =>
        simp only
        split <;> exact ⟨hlist, rfl, rfl⟩
      all_goals exact ⟨.refl d.it, rfl, rfl⟩
    · exact .refl d
  · have hread := deserializeBasic_reads env .int64 d.it
    split
    case h_1 it v hresult =>
      rw [hresult] at hread
      exact ⟨hread, rfl, rfl⟩
    case h_2 it hresult =>
      rw [hresult] at hread
      exact ⟨hread, rfl, rfl⟩

/-- A header was read within the bytes left, and took one of them at least. -/
theorem decodeHeader_reads (it : Iterator) : Reads it (decodeHeader env it).1 := by
  have hread := deserializeVarintCommon_reads env it
  unfold decodeHeader
  split
  · exact .refl it
  · split
    case h_1 it' hvarint => simpa [hvarint] using hread
    case h_2 it' value hvarint =>
      rw [hvarint] at hread
      simp only
      split
      · exact hread
      · split <;> exact hread

/-- A header is a varint that was there. -/
theorem decodeHeader_varint {it it' : Iterator} {header : Nat × WireType}
    (h : decodeHeader env it = (it', some header)) :
    it.bytesLeft ≠ 0 ∧ ∃ value, deserializeVarintCommon env it = (it', some value) := by
  unfold decodeHeader at h
  split at h
  · simp at h
  · rename_i hl
    refine ⟨hl, ?_⟩
    split at h
    · simp at h
    · rename_i it'' value hvarint
      refine ⟨value, ?_⟩
      rw [hvarint]
      simp only at h
      split at h
      · simp at h
      · split at h <;> simp_all

end QtGrpc.Protobuf.Binary
