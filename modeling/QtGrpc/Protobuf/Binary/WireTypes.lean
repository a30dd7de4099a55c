import QtGrpc.Protobuf.Formed
import QtGrpc.Protobuf.Binary.AcceptedRun

/-!
# Wire types of known fields

A header names a field and a wire type, and the kind of the field admits some wire types only. The
decoder of scalars compares the two, the one of lists of enumerators has a branch for each wire type
it admits; singular enumerators and messages are read whatever the header says.
-/

namespace QtGrpc.Protobuf

/-- The wire types that a field of this type may have. -/
def PropertyType.admits : PropertyType → WireType → Bool
  | .scalar k, w => w == k.wireType
  | .list k, w => w == k.wireType || w == .lengthDelimited
  | .enum _, w => w == .varint
  | .enumList _, w => w == .varint || w == .lengthDelimited
  | .message _, w | .messageList _, w | .hash .., w | .custom .., w => w == .lengthDelimited

namespace Binary

variable (env : Environment) (S : Schema)

/-- The field of the type that a call found last, with the wire type in its header. -/
def occurrence (c : LoopCall Deserializer) : Option (FieldInfo × WireType) :=
  let d := (nextFieldIndex env S c.fuel c.type c.state c.message).1
  let ordering := S.propertyOrdering c.type
  (d.visits.drop c.state.visits.length).getLast?.bind fun v =>
    (ordering.indexOfFieldNumber v.fieldNumber).bind fun i =>
      (ordering.fields[i]?).map fun f => (f, v.wireType)

/-- A field is read without looking at its wire type, which its type does not admit: a singular
enumerator, if there is a varint to be read, or a message behind a length that was read. -/
def Misread (x : Iteration Deserializer) : Prop :=
  match x.field.type with
  | .enum _ => x.state.wireType ≠ .varint ∧ (deserializeVarintCommon env x.state.it).2 ≠ none
  | .message _ | .messageList _ | .hash .. => x.state.wireType ≠ .lengthDelimited
  | .custom h _ => x.state.wireType ≠ .lengthDelimited ∧ S.findHandler h ≠ none
  | _ => False

/-- The calls of a decoding, if the input is not rejected for its size. -/
def Serializer.Enters (s : Serializer) (fuel : Nat) (t : MessageType) (data : Bytes)
    (c : LoopCall Deserializer) : Prop :=
  data.length ≤ s.effectiveMaximumInputSize ∧
    LoopCall.Enters (format env S) S
      { fuel, type := t, state := started s.deserializer data, message := S.defaultMessage t } c

/-- Every field whose wire type its type does not admit is rejected: nothing is read from its
payload, neither a value nor a message, and the input is not accepted. -/
structure ChecksWireTypes (s : Serializer) (fuel : Nat) (t : MessageType) (data : Bytes) :
    Prop where
  notDecoded : ∀ c f w, s.Enters env S fuel t data c → occurrence env S c = some (f, w) →
    f.type.admits w = false → ∀ x, c.iteration (format env S) S = some x →
      (x.result (format env S) S).stop ≠ none ∧ x.messageField (format env S) S = none
  rejected : ∀ c f w, s.Enters env S fuel t data c → occurrence env S c = some (f, w) →
    f.type.admits w = false →
      (s.deserialize env S fuel t data).1.deserializer.hasError ∧
        (s.deserialize env S fuel t data).2.2 ≠ .returned true

variable {env S}

/-! ## The binary format reads values of the type of the property -/

/-- A value that is read suits the type it is read for. -/
theorem integratedDeserializer_suits {type : PropertyType} {nonPacked : Bool} {it it' : Iterator}
    {v v' : Value} (h : integratedDeserializer env type nonPacked it v = (it', some v')) :
    v'.Suits type := by
  unfold integratedDeserializer at h
  split at h
  · rename_i k _ _
    obtain ⟨x, -, rfl⟩ := Option.map_eq_some_iff.mp (congrArg Prod.snd h)
    exact ⟨_, rfl⟩
  · rename_i k _ k' vs
    split at h
    · split at h
      all_goals
        obtain ⟨x, -, rfl⟩ := Option.map_eq_some_iff.mp (congrArg Prod.snd h)
        exact ⟨_, rfl⟩
    · cases h
  · cases h

/-- A scalar field is left with a value that suits its type. -/
theorem deserializeScalarField_suits (f : FieldInfo) (d : Deserializer) {v : Value}
    (hv : v.Suits f.type)
    (hread : (deserializeScalarField env S f d v).2.2 = true →
      (deserializeScalarField env S f d v).2.1.isNull = false) :
    (deserializeScalarField env S f d v).2.1.Suits f.type := by
  unfold deserializeScalarField at hread ⊢
  simp only at hread ⊢
  split
  · exact hv
  · rename_i w hwire
    rw [hwire] at hread
    simp only at hread ⊢
    split at hread
    · simp [Value.isNull] at hread
    · rename_i hsame
      rw [if_neg hsame]
      cases hresult : integratedDeserializer env f.type
          (d.wireType != .lengthDelimited && f.fieldFlags.repeated) d.it v with
      | mk it result =>
        cases result with
        | none => simp [hresult, Value.isNull] at hread
        | some v' =>
          have hsuits := integratedDeserializer_suits hresult
          simp only
          exact hsuits

/-- An enumerator that is read suits its type. -/
theorem deserializeEnum_suits (f : FieldInfo) (d : Deserializer) (v : Value) (hf : f.type.isEnum)
    (hread : (deserializeEnum env f d v).2.2 = true) :
    (deserializeEnum env f d v).2.1.Suits f.type := by
  unfold deserializeEnum at hread ⊢
  rw [f.fieldFlags_repeated] at hread ⊢
  cases htype : f.type with
  | enum e =>
    simp only [htype, PropertyType.isRepeated, Bool.false_eq_true, if_false] at hread ⊢
    generalize deserializeBasic env .int64 d.it = r at hread ⊢
    obtain ⟨it, _ | x⟩ := r
    · cases hread
    · exact .inr ⟨x, rfl⟩
  | enumList e =>
    simp only [htype, PropertyType.isRepeated, if_true] at hread ⊢
    cases v with
    | enumerators e' vs =>
      simp only at hread ⊢
      split
      · exact ⟨_, _, rfl⟩
      · rename_i hnone
        rw [hnone] at hread
        cases hread
    | _ => cases hread
  | _ => simp [htype, PropertyType.isEnum] at hf

/-- Looking for the next field changes no member. -/
theorem nextFieldIndex_member (fuel : Nat) (t : MessageType) (d : Deserializer) (m : Message) :
    (nextFieldIndex env S fuel t d m).2.1.member = m.member := by
  induction fuel generalizing d m with
  | zero => rfl
  | succ fuel ih =>
    have hstep := nextFieldIndex_step env S fuel t d m
    generalize nextFieldIndex env S (fuel + 1) t d m = r at hstep ⊢
    cases hstep with
    | skipped it it' n w m' h hheader hindex hskip hvalid hforward hm =>
      rw [ih, hm]
      split <;> rfl
    | _ => rfl

/-- The readers of the binary format give values of their types. -/
theorem format_typed : (format env S).Typed S where
  nextFieldIndex fuel t d m := nextFieldIndex_member fuel t d m
  deserializeEnum f d v hf _ hread := deserializeEnum_suits f d v hf hread
  deserializeScalarField f d v hv hread := deserializeScalarField_suits f d hv hread
  interceptMessageField _ _ _ _ _ _ h := by cases h

/-- Every call of a decoding finds its message well formed. -/
theorem Serializer.Enters.formed {s : Serializer} {fuel : Nat} {t : MessageType} {data : Bytes}
    {c : LoopCall Deserializer} (h : s.Enters env S fuel t data c) : c.Formed S :=
  LoopCall.Formed.enters format_typed h.2 (.stored rfl (defaultMessage_wellFormed S t))

/-! ## The field a call finds -/

/-- Entering a field comes to it under its wire type, or finishes with an error. -/
theorem enterField_cases (f : FieldInfo) (i : Nat) (d : Deserializer) :
    (enterField env f i d).1.visits = d.visits ∧
      ((enterField env f i d).2 = .field i ∧ (enterField env f i d).1.wireType = d.wireType ∨
        (enterField env f i d).2 = .finished ∧ (enterField env f i d).1.hasError) := by
  refine ⟨(enterField_consumes env f i d).2.1, ?_⟩
  unfold enterField
  split
  · split
    · exact .inr ⟨rfl, hasError_setError _ _ (by simp)⟩
    · simp only
      split
      · exact .inr ⟨rfl, hasError_setError _ _ (by simp)⟩
      · exact .inl ⟨rfl, rfl⟩
  · exact .inl ⟨rfl, rfl⟩

/-- A field of the type is the last one that `nextFieldIndex` comes to. -/
inductive Found (S : Schema) (t : MessageType) (d : Deserializer) :
    Deserializer → NextField → Prop where
  | unknown {d' : Deserializer} {next : NextField} (visits : List Visit)
      (hvisits : d'.visits = d.visits ++ visits)
      (hlast : ∀ v, visits.getLast? = some v →
        (S.propertyOrdering t).indexOfFieldNumber v.fieldNumber = none)
      (hnext : ∀ i, next ≠ .field i) : Found S t d d' next
  | noField {d' : Deserializer} (visits : List Visit) (v : Visit) (i : Nat)
      (hvisits : d'.visits = d.visits ++ (visits ++ [v]))
      (hindex : (S.propertyOrdering t).indexOfFieldNumber v.fieldNumber = some i)
      (hfield : (S.propertyOrdering t).fields[i]? = none) : Found S t d d' (.field i)
  | failed {d' : Deserializer} (visits : List Visit) (v : Visit)
      (hvisits : d'.visits = d.visits ++ (visits ++ [v])) (herror : d'.hasError) :
      Found S t d d' .finished
  | entered {d' : Deserializer} (visits : List Visit) (v : Visit) (i : Nat) (f : FieldInfo)
      (hvisits : d'.visits = d.visits ++ (visits ++ [v]))
      (hindex : (S.propertyOrdering t).indexOfFieldNumber v.fieldNumber = some i)
      (hfield : (S.propertyOrdering t).fields[i]? = some f) (hwire : d'.wireType = v.wireType) :
      Found S t d d' (.field i)

/-- An unknown field in front changes nothing about what is found. -/
theorem Found.skip {t : MessageType} {d₁ d₂ d₃ : Deserializer} {v : Visit} {next : NextField}
    (hv : d₂.visits = d₁.visits ++ [v])
    (hindex : (S.propertyOrdering t).indexOfFieldNumber v.fieldNumber = none)
    (h : Found S t d₂ d₃ next) : Found S t d₁ d₃ next := by
  cases h with
  | unknown visits hvisits hlast hnext =>
    refine .unknown (v :: visits) (by rw [hvisits, hv]; simp) (fun v' hv' => ?_) hnext
    rw [List.getLast?_cons] at hv'
    cases hvs : visits.getLast? with
    | none =>
      rw [hvs] at hv'
      cases hv'
      exact hindex
    | some last =>
      rw [hvs] at hv'
      cases hv'
      exact hlast _ hvs
  | noField visits v' i hvisits hindex' hfield =>
    exact .noField (v :: visits) v' i (by rw [hvisits, hv]; simp) hindex' hfield
  | failed visits v' hvisits herror =>
    exact .failed (v :: visits) v' (by rw [hvisits, hv]; simp) herror
  | entered visits v' i f hvisits hindex' hfield hwire =>
    exact .entered (v :: visits) v' i f (by rw [hvisits, hv]; simp) hindex' hfield hwire

/-- What is found stands behind unknown fields only. -/
theorem nextFieldIndex_found (fuel : Nat) (t : MessageType) (d : Deserializer) (m : Message) :
    Found S t d (nextFieldIndex env S fuel t d m).1 (nextFieldIndex env S fuel t d m).2.2 := by
  induction fuel generalizing d m with
  | zero => exact .unknown [] (by simp [nextFieldIndex]) (by simp) (by simp [nextFieldIndex])
  | succ fuel ih =>
    have hstep := nextFieldIndex_step env S fuel t d m
    generalize nextFieldIndex env S (fuel + 1) t d m = r at hstep ⊢
    cases hstep with
    | ended h =>
      refine .unknown [] ?_ (by simp) (by simp)
      unfold Deserializer.leaveFrame
      split <;> simp
    | badHeader it => exact .unknown [] (by simp) (by simp) (by simp)
    | stuck it n w h hheader hindex =>
      exact .unknown [_] rfl (by simpa using hindex) (by simp)
    | overrun it it' n w h hheader hindex =>
      exact .unknown [_] rfl (by simpa using hindex) (by simp)
    | backwards it it' n w h hheader hindex =>
      exact .unknown [_] rfl (by simpa using hindex) (by simp)
    | skipped it it' n w m' h hheader hindex => exact (ih _ m').skip rfl hindex
    | noField it n w i h hheader hindex hfield => exact .noField [] _ i rfl hindex hfield
    | known it n w i f h hheader hindex hfield =>
      obtain ⟨hvisits, hcases⟩ := @enterField_cases env f i (d.visit t it n w)
      rcases hcases with ⟨hnext, hwire⟩ | ⟨hnext, herror⟩
      · rw [hnext]
        exact .entered [] _ i f hvisits hindex hfield hwire
      · rw [hnext]
        exact .failed [] _ hvisits herror

/-- A field that is decoded in a call is the one the call found last. -/
theorem occurrence_of_iteration {c : LoopCall Deserializer} {x : Iteration Deserializer}
    (hx : c.iteration (format env S) S = some x) :
    occurrence env S c = some (x.field, x.state.wireType) := by
  obtain ⟨hfuel, m, hnext, hf, -⟩ := LoopCall.iteration_eq_some hx
  have hnext : nextFieldIndex env S c.fuel c.type c.state c.message = (x.state, m, .field x.index) := by
    rw [hfuel]
    exact hnext
  have hfound := @nextFieldIndex_found env S c.fuel c.type c.state c.message
  simp only [occurrence, hnext] at hfound ⊢
  generalize hi : NextField.field x.index = next at hfound
  cases hfound with
  | unknown visits hvisits hlast hnone => exact absurd hi.symm (hnone x.index)
  | noField visits v i hvisits hindex hfield =>
    cases hi
    simp [hfield] at hf
  | failed => cases hi
  | entered visits v i f hvisits hindex hfield hwire =>
    cases hi
    simp [hvisits, hindex, hf, hwire]

/-- A property can be selected for every field that is found. -/
theorem exists_iteration {c : LoopCall Deserializer} (hc : c.Formed S) {fuel i : Nat}
    {f : FieldInfo} (hfuel : c.fuel = fuel + 1)
    (hnext : (nextFieldIndex env S (fuel + 1) c.type c.state c.message).2.2 = .field i)
    (hf : (S.propertyOrdering c.type).fields[i]? = some f) :
    c.iteration (format env S) S ≠ none := by
  have hmember := @nextFieldIndex_member env S (fuel + 1) c.type c.state c.message
  have hfound : (format env S).nextFieldIndex (fuel + 1) c.type c.state c.message =
      nextFieldIndex env S (fuel + 1) c.type c.state c.message := rfl
  unfold LoopCall.iteration
  simp only [hfuel, hfound]
  generalize nextFieldIndex env S (fuel + 1) c.type c.state c.message = r at hnext hmember ⊢
  obtain ⟨d, m, next⟩ := r
  obtain rfl : next = .field i := hnext
  obtain ⟨cache, m', hselect, -⟩ := selectProperty_spec (hc.of_member_eq hmember) hf
  simp [hf, hselect]

/-- A field that a call found without decoding it has set an error, and the call ends with one. -/
theorem hasError_of_no_iteration {c : LoopCall Deserializer} (hc : c.Formed S)
    (hx : c.iteration (format env S) S = none) {f : FieldInfo} {w : WireType}
    (hoccurrence : occurrence env S c = some (f, w)) :
    (c.result (format env S) S).1.hasError := by
  have hfound := @nextFieldIndex_found env S c.fuel c.type c.state c.message
  unfold occurrence at hoccurrence
  cases hfuel : c.fuel with
  | zero => simp [hfuel, nextFieldIndex] at hoccurrence
  | succ fuel =>
    rw [hfuel] at hfound hoccurrence
    simp only at hoccurrence
    generalize hd : (nextFieldIndex env S (fuel + 1) c.type c.state c.message).1 = d,
      hnext : (nextFieldIndex env S (fuel + 1) c.type c.state c.message).2.2 = next
      at hfound hoccurrence
    cases hfound with
    | unknown visits hvisits hlast =>
      rw [hvisits, List.drop_left] at hoccurrence
      obtain ⟨v, hv, hindex⟩ := Option.bind_eq_some_iff.mp hoccurrence
      simp [hlast v hv] at hindex
    | noField visits v i hvisits hindex hfield =>
      simp [hvisits, hindex, hfield] at hoccurrence
    | entered visits v i f' hvisits hindex hfield => exact absurd hx (exists_iteration hc hfuel hnext hfield)
    | failed visits v hvisits herror =>
      obtain ⟨ok, -, hfinish⟩ :=
        LoopCall.result_of_finished (b := format env S) (S := S) hfuel hnext
      refine (hfinish.within (format_extends env S)).1 ?_
      rw [show ((format env S).nextFieldIndex (fuel + 1) c.type c.state c.message).1 = d from hd]
      exact herror

/-! ## What is read from a field -/

/-- A scalar is only read if the header has the wire type of the value, or of a list of them. -/
theorem deserializeScalarField_rejects {f : FieldInfo} {d : Deserializer} (v : Value)
    (hmessage : f.type.isMessage = false) (henum : f.type.isEnum = false)
    (hadmits : f.type.admits d.wireType = false) :
    (deserializeScalarField env S f d v).2.2 = true ∧
        (deserializeScalarField env S f d v).2.1.isNull ∧
        (deserializeScalarField env S f d v).1.hasError ∨
      (deserializeScalarField env S f d v).2.2 = false := by
  unfold deserializeScalarField
  rw [f.fieldFlags_repeated]
  cases htype : f.type with
  | scalar k =>
    rw [htype] at hadmits
    have hne : k.wireType ≠ d.wireType := fun h => by simp [PropertyType.admits, h] at hadmits
    simp only [integratedWireType, PropertyType.isRepeated, Bool.and_false, Bool.false_eq_true,
      if_false, if_pos hne]
    exact .inl ⟨trivial, rfl, hasError_setError _ _ (by simp)⟩
  | list k =>
    rw [htype] at hadmits
    have hne : k.wireType ≠ d.wireType := fun h => by simp [PropertyType.admits, h] at hadmits
    have hne' : d.wireType ≠ .lengthDelimited := fun h => by
      simp [PropertyType.admits, h] at hadmits
    have hnonPacked : (d.wireType != .lengthDelimited) = true := by simpa using hne'
    simp only [integratedWireType, PropertyType.isRepeated, hnonPacked, Bool.and_true, if_true]
    cases k.isLengthDelimited with
    | true => exact .inr rfl
    | false =>
      simp only [Bool.false_eq_true, if_false, if_pos hne]
      exact .inl ⟨trivial, rfl, hasError_setError _ _ (by simp)⟩
  | _ => simp_all [PropertyType.isMessage, PropertyType.isEnum]

/-- A list of enumerators is only read if the header has the wire type of one of them or of a packed
list. -/
theorem deserializeEnum_rejects {f : FieldInfo} {d : Deserializer} (v : Value) {e : Nat}
    (htype : f.type = .enumList e) (hadmits : f.type.admits d.wireType = false) :
    (deserializeEnum env f d v).2.2 = false := by
  rw [htype] at hadmits
  unfold deserializeEnum
  rw [f.fieldFlags_repeated]
  simp only [htype, PropertyType.isRepeated, if_true]
  cases v with
  | enumerators e' vs => cases hwire : d.wireType <;> simp_all [PropertyType.admits]
  | _ => rfl

/-- A singular enumerator is read wherever a varint can be read. -/
theorem deserializeEnum_reads {f : FieldInfo} {d : Deserializer} (v : Value) {e : Nat}
    (htype : f.type = .enum e) :
    (deserializeEnum env f d v).2.2 = (deserializeVarintCommon env d.it).2.isSome := by
  unfold deserializeEnum
  rw [f.fieldFlags_repeated]
  simp only [htype, PropertyType.isRepeated, Bool.false_eq_true, if_false, deserializeBasic,
    ScalarKind.wireType]
  rcases deserializeVarintCommon env d.it with ⟨it, _ | value⟩ <;> rfl

variable {c : LoopCall Deserializer} {x : Iteration Deserializer}

/-- A field that is neither an enumerator nor decoded from a message of its own is left to the decoder
of scalars and to the handlers. -/
theorem result_of_handler (henum : x.field.type.isEnum = false)
    (hnested : x.field.type.nestedType = none) :
    x.result (format env S) S = deserializeWithHandler (format env S) S
        (deserializeMessageField (format env S) S x.fuel) x.field x.cache x.state x.message ∧
      x.messageField (format env S) S = x.handlerField (format env S) S := by
  unfold Iteration.result deserializeProperty Iteration.messageField
  cases htype : x.field.type <;> simp_all [PropertyType.isEnum, PropertyType.nestedType]

/-- The decoder of scalars either fails, or there is no handler for the type. -/
theorem rejects_of_handler (henum : x.field.type.isEnum = false)
    (hnested : x.field.type.nestedType = none) (hhandler : S.handlerOf x.field.type = none)
    (hscalar : ∀ v, (deserializeScalarField env S x.field x.state v).2.2 = true →
      (deserializeScalarField env S x.field x.state v).2.1.isNull ∧
        (deserializeScalarField env S x.field x.state v).1.hasError) :
    (x.result (format env S) S).stop = some (.returned false) ∧
      x.messageField (format env S) S = none ∧ (x.result (format env S) S).state.hasError := by
  obtain ⟨hresult, hcall⟩ := @result_of_handler env S _ henum hnested
  have hfield : (format env S).deserializeScalarField = deserializeScalarField env S := rfl
  have hread := hscalar x.cache.propertyValue
  rw [hresult, hcall]
  unfold deserializeWithHandler Iteration.handlerField
  rw [hfield]
  generalize deserializeScalarField env S x.field x.state x.cache.propertyValue = r at hread ⊢
  obtain ⟨d, v, ok⟩ := r
  cases ok with
  | true =>
    obtain ⟨hnull, herror⟩ := hread rfl
    simp only [hnull, if_true]
    exact ⟨trivial, trivial, herror⟩
  | false =>
    simp only [hhandler, Option.map_none]
    exact ⟨trivial, trivial, hasError_setError _ _ (by simp)⟩

/-- A turn for an enumerator goes on exactly when the enumerator is read. -/
theorem result_of_enum (henum : x.field.type.isEnum) (v : Value)
    (hv : v = x.cache.propertyValue) :
    ((x.result (format env S) S).stop = none ↔ (deserializeEnum env x.field x.state v).2.2 = true) ∧
      ((deserializeEnum env x.field x.state v).2.2 = false →
        (x.result (format env S) S).stop = some (.returned false) ∧
        (x.result (format env S) S).state.hasError) ∧
      x.messageField (format env S) S = none := by
  subst hv
  have hfield : (format env S).deserializeEnum = deserializeEnum env := rfl
  unfold Iteration.result deserializeProperty Iteration.messageField
  cases htype : x.field.type <;> simp only [htype, PropertyType.isEnum, Bool.false_eq_true] at henum
  all_goals
    simp only [hfield]
    generalize deserializeEnum env x.field x.state x.cache.propertyValue = r
    obtain ⟨d, v, ok⟩ := r
    cases ok with
    | true => simp
    | false => exact ⟨by simp, fun _ => ⟨rfl, hasError_setError _ _ (by simp)⟩, trivial⟩

/-- A field that is not misread is rejected unless its type admits the wire type. -/
theorem rejects_of_not_misread (hadmits : x.field.type.admits x.state.wireType = false)
    (h : ¬Misread env S x) :
    (x.result (format env S) S).stop = some (.returned false) ∧
      x.messageField (format env S) S = none ∧ (x.result (format env S) S).state.hasError := by
  unfold Misread at h
  have hscalar (hmessage : x.field.type.isMessage = false) (henum : x.field.type.isEnum = false)
      (v : Value) (hread : (deserializeScalarField env S x.field x.state v).2.2 = true) :
      (deserializeScalarField env S x.field x.state v).2.1.isNull ∧
        (deserializeScalarField env S x.field x.state v).1.hasError := by
    rcases deserializeScalarField_rejects v hmessage henum hadmits with ⟨-, hboth⟩ | hfalse
    · exact hboth
    · rw [hfalse] at hread
      cases hread
  cases htype : x.field.type with
  | scalar k | list k =>
    rw [htype] at hscalar
    exact rejects_of_handler (by rw [htype]; rfl) (by rw [htype]; rfl) (by rw [htype]; rfl)
      (hscalar rfl rfl)
  | enum e =>
    rw [htype] at hadmits h
    have hvarint : x.state.wireType ≠ .varint := fun heq => by
      simp [PropertyType.admits, heq] at hadmits
    obtain ⟨-, hrejected, hcall⟩ := @result_of_enum env S x
      (by rw [htype]; rfl) _ rfl
    have hread := @deserializeEnum_reads env _ x.state x.cache.propertyValue _ htype
    have hnone : (deserializeVarintCommon env x.state.it).2 = none := by
      by_contra hsome
      exact h ⟨hvarint, hsome⟩
    rw [hnone] at hread
    obtain ⟨hstop, herror⟩ := hrejected hread
    exact ⟨hstop, hcall, herror⟩
  | enumList e =>
    obtain ⟨-, hrejected, hcall⟩ := @result_of_enum env S x
      (by rw [htype]; rfl) _ rfl
    obtain ⟨hstop, herror⟩ := hrejected (deserializeEnum_rejects _ htype hadmits)
    exact ⟨hstop, hcall, herror⟩
  | message k | messageList k | hash key value =>
    rw [htype] at hadmits h
    have hdelimited : x.state.wireType = .lengthDelimited := by simpa using h
    simp [PropertyType.admits, hdelimited] at hadmits
  | custom k isList =>
    rw [htype] at hadmits h
    have hdelimited : x.state.wireType ≠ .lengthDelimited := fun heq => by
      simp [PropertyType.admits, heq] at hadmits
    have hhandler : S.findHandler k = none := by
      by_contra hsome
      exact h ⟨hdelimited, hsome⟩
    refine rejects_of_handler (by rw [htype]; rfl) (by rw [htype]; rfl) (by rw [htype]; exact hhandler)
      fun v hread => ?_
    rw [deserializeScalarField_of_isMessage (by rw [htype]; rfl)] at hread
    cases hread

/-- A misread field is decoded. -/
theorem decodes_of_misread {t : MessageType} (hx : x.Formed S t) (h : Misread env S x) :
    (x.result (format env S) S).stop = none ∨ x.messageField (format env S) S ≠ none := by
  have hsuits := hx.property.suits
  unfold Misread at h
  cases htype : x.field.type with
  | scalar k | list k | enumList e =>
    rw [htype] at h
    cases h
  | enum e =>
    rw [htype] at h
    have hread := @deserializeEnum_reads env _ x.state x.cache.propertyValue _ htype
    rw [Option.isSome_iff_ne_none.mpr h.2] at hread
    exact .inl ((result_of_enum (by rw [htype]; rfl) _ rfl).1.mpr hread)
  | message k =>
    rw [htype] at hsuits
    obtain ⟨sub, hv⟩ := hsuits
    exact .inr (by simp [Iteration.messageField, htype, hv])
  | messageList k =>
    rw [htype] at hsuits
    obtain ⟨k', ms, hv⟩ := hsuits
    exact .inr (by simp [Iteration.messageField, htype, hv])
  | hash key value =>
    rw [htype] at hsuits
    obtain ⟨entries, hv⟩ := hsuits
    exact .inr (by simp [Iteration.messageField, htype, hv])
  | custom k isList =>
    rw [htype] at h
    refine .inr ?_
    have hscalar : (format env S).deserializeScalarField x.field x.state x.cache.propertyValue =
        (x.state, x.cache.propertyValue, false) :=
      deserializeScalarField_of_isMessage (by rw [htype]; rfl) x.state x.cache.propertyValue
    rw [(result_of_handler (by rw [htype]; rfl) (by rw [htype]; rfl)).2, Iteration.handlerField,
      hscalar]
    simpa [htype, Schema.handlerOf] using h.2

/-- An error at the end of a call is one at the end of the decoding. -/
theorem Serializer.Enters.rejected {s : Serializer} {fuel : Nat} {t : MessageType} {data : Bytes}
    {c : LoopCall Deserializer} (h : s.Enters env S fuel t data c)
    (herror : (c.result (format env S) S).1.hasError) :
    (s.deserialize env S fuel t data).1.deserializer.hasError ∧
      (s.deserialize env S fuel t data).2.2 ≠ .returned true := by
  obtain ⟨hsize, henters⟩ := h
  have hrun := (henters.within (format_extends env S)).1 herror
  unfold LoopCall.result at hrun
  simp only [Serializer.deserialize, if_neg (Nat.not_lt.mpr hsize), deserializeMessage]
  generalize deserializeLoop (format env S) S fuel t [] {} (started s.deserializer data)
    (S.defaultMessage t) = r at hrun ⊢
  obtain ⟨d, m, outcome⟩ := r
  cases outcome with
  | outOfFuel => exact ⟨hrun, by simp⟩
  | returned ok =>
    have hlast : d.lastError ≠ .none := by simpa [Deserializer.hasError] using hrun
    exact ⟨hrun, by simpa [Deserializer.reset] using hlast⟩

/-- In every decoding, the fields whose types do not admit their wire types are rejected, if and only
if no field is misread. -/
theorem checksWireTypes_iff (env : Environment) (S : Schema) (s : Serializer) (fuel : Nat)
    (t : MessageType) (data : Bytes) :
    ChecksWireTypes env S s fuel t data ↔
      ∀ c x, s.Enters env S fuel t data c → c.iteration (format env S) S = some x →
        ¬Misread env S x := by
  constructor
  · intro h c x hc hx hmisread
    have hformed := hc.formed.iteration format_typed hx
    have hadmits : x.field.type.admits x.state.wireType = false := by
      unfold Misread at hmisread
      cases htype : x.field.type <;> simp_all [PropertyType.admits]
    obtain ⟨hstop, hcall⟩ := h.notDecoded c _ _ hc (occurrence_of_iteration hx) hadmits x hx
    rcases decodes_of_misread hformed hmisread with hdecoded | hdecoded
    · exact hstop hdecoded
    · exact hdecoded hcall
  · intro h
    have hreject (c : LoopCall Deserializer) (f : FieldInfo) (w : WireType)
        (hc : s.Enters env S fuel t data c) (hoccurrence : occurrence env S c = some (f, w))
        (hadmits : f.type.admits w = false) (x : Iteration Deserializer)
        (hx : c.iteration (format env S) S = some x) :
        (x.result (format env S) S).stop = some (.returned false) ∧
          x.messageField (format env S) S = none ∧
          (x.result (format env S) S).state.hasError := by
      have hfound := occurrence_of_iteration hx
      rw [hoccurrence] at hfound
      cases hfound
      exact rejects_of_not_misread hadmits (h c x hc hx)
    constructor
    · intro c f w hc hoccurrence hadmits x hx
      obtain ⟨hstop, hcall, -⟩ := hreject c f w hc hoccurrence hadmits x hx
      exact ⟨by rw [hstop]; simp, hcall⟩
    · intro c f w hc hoccurrence hadmits
      refine hc.rejected ?_
      cases hx : c.iteration (format env S) S with
      | none => exact hasError_of_no_iteration hc.formed hx hoccurrence
      | some x =>
        obtain ⟨hstop, -, herror⟩ := hreject c f w hc hoccurrence hadmits x hx
        rw [LoopCall.result_of_iteration hx, hstop]
        exact herror

/-- An enumerator behind a header of a fixed width, and a message behind one. -/
theorem not_checksWireTypes_tagged :
    ¬ChecksWireTypes nullTerminated taggedSchema .initial 8 (.named 0) [0x0D, 0x05] ∧
      ¬ChecksWireTypes nullTerminated taggedSchema .initial 8 (.named 0) [0x15, 0x00] := by
  constructor
  · intro h
    have hrejected := h.rejected _ { fieldNumber := 1, jsonName := "kind", type := .enum 0 } .fixed32
      ⟨by decide, .refl _⟩ rfl rfl
    exact hrejected.2 (by decide)
  · intro h
    have hrejected := h.rejected _ { fieldNumber := 2, jsonName := "body", type := .message 1 }
      .fixed32 ⟨by decide, .refl _⟩ rfl rfl
    exact hrejected.2 (by decide)

end Binary

end QtGrpc.Protobuf
