import QtGrpc.Protobuf.Json.Steps

/-!
# Result and error of the JSON decoder

The result of the decoder and its error are set in different places. Some of what the decoder
meets sets the error, some of it ends the decoding with the result `false`, and the two are not
the same: the result agrees with the error exactly if the last thing that was met did both, or if
what was met does not tell the difference.
-/

namespace QtGrpc.Protobuf.Json

variable (env : JsonEnvironment) (custom : CustomDeserializers) (S : Schema)

/-- A scalar field can be read from a value, or a list of scalars from an array: one that is not
empty and with items that can be read. -/
def Readable (f : FieldInfo) (value : JsonValue) : Prop :=
  match f.type with
  | .scalar k => (deserializeScalar env k value).2 = true
  | .list k => ∃ items, value = .array items ∧ items ≠ [] ∧
      ∀ item ∈ items, (deserializeScalar env k item).2 = true
  | _ => False

/-- An error is set where this is met: a value that the message or map field cannot be read from,
one that the scalar or the list cannot be read from, or one for a message whose type has no custom
deserializer. -/
def Event.Reported : Event → Prop
  | .asked => False
  | .found f value => WrongShape f value
  | .read f value => ¬ Readable env f value
  | .message t _ _ => findCustomJsonDeserializer custom t = none
  | .failed error => error ≠ .none

/-- The decoding of the message ends with the result `false` where this is met: a value for a list
that is no array, or one for a message that no custom deserializer takes. -/
def Event.Stops : Event → Prop
  | .asked | .found .. => False
  | .read f value => (∃ k, f.type = .list k) ∧ ∀ items, value ≠ .array items
  | .message t m value =>
    ∀ deserializer, findCustomJsonDeserializer custom t = some deserializer →
      (deserializer m value).2 = false
  | .failed _ => True

/-- The last thing that was met ends the decoding if and only if something that was met sets the
error. -/
def Agrees (events : List Event) : Prop :=
  (∃ e ∈ events.getLast?, e.Stops custom) ↔ ∃ e ∈ events, e.Reported env custom

/-- The result is `true` if and only if there is no error. -/
def ResultAgrees (result : Deserializer × Message × Outcome) : Prop :=
  ∃ ok, result.2.2 = .returned ok ∧ (ok = true ↔ result.1.lastError = .none)

/-- A result that returns something else than whether there is an error breaks the agreement. -/
theorem not_resultAgrees (result : Deserializer × Message × Outcome) (ok : Bool)
    (hok : result.2.2 = .returned ok) (h : ¬ (ok = true ↔ result.1.lastError = .none)) :
    ¬ ResultAgrees result := by
  rintro ⟨ok', hok', h'⟩
  obtain rfl : ok = ok' := by simpa [hok] using hok'
  exact h h'

/-- The error is set if it was set before or something was met in between that is reported. -/
def Logs (s s' : Deserializer) : Prop :=
  ∃ met, s'.events = s.events ++ met ∧
    (s'.lastError ≠ .none ↔ s.lastError ≠ .none ∨ ∃ e ∈ met, e.Reported env custom)

/-- A step that meets nothing leaves the error as it is. -/
theorem Logs.refl (s : Deserializer) : Logs env custom s s := ⟨[], by simp⟩

variable {env custom S}

/-- Steps that account for the error compose. -/
theorem Logs.trans {s₁ s₂ s₃ : Deserializer} (h : Logs env custom s₁ s₂)
    (h' : Logs env custom s₂ s₃) : Logs env custom s₁ s₃ := by
  obtain ⟨met, hevents, herror⟩ := h
  obtain ⟨met', hevents', herror'⟩ := h'
  refine ⟨met ++ met', by rw [hevents', hevents, List.append_assoc], ?_⟩
  simp only [herror', herror, List.mem_append, or_and_right, exists_or, or_assoc]

/-- Something was met that is not reported. -/
theorem Logs.met {s s' : Deserializer} {e : Event} (he : ¬ e.Reported env custom)
    (hevents : s'.events = s.events ++ [e]) (herror : s'.lastError = s.lastError) :
    Logs env custom s s' :=
  ⟨[e], hevents, by simp [herror, he]⟩

/-- Something was met that is reported. -/
theorem Logs.met_setError {s s' : Deserializer} {e : Event} (he : e.Reported env custom)
    (hevents : s'.events = s.events ++ [e]) (herror : s'.lastError ≠ .none) :
    Logs env custom s s' :=
  ⟨[e], hevents, by simp [herror, he]⟩

/-- Asking for the next field sets no error. -/
theorem Logs.asked (s : Deserializer) (state : List JsonState) :
    Logs env custom s { s.met .asked with state } :=
  .met (e := .asked) (fun h => h) rfl rfl

/-- Looking for the next field sets an error exactly for a value of the wrong shape. -/
theorem NextStep.logs {t : MessageType} {s s' : Deserializer} {next : NextField}
    (h : NextStep env S t s s' next) : Logs env custom s s' := by
  cases h with
  | noFields | noState | popped => exact .asked s _
  | wrongShape top top' rest f value hstate hobj hshape =>
    have hfound : Logs env custom { s.met .asked with state := top' :: rest }
        ({ s.met .asked with state := top' :: rest }.met (.found f value)).setInvalidFormatError :=
      .met_setError (e := .found f value) hshape rfl (by
        simp [Deserializer.setInvalidFormatError, Deserializer.setError])
    exact (Logs.asked s _).trans hfound
  | scalar top top' rest i f val value hstate hf hvalue hshape hleft =>
    exact (Logs.asked s _).trans (.met (e := .found f val) hshape rfl rfl)
  | object pushed top top' rest i f val hstate hf hmessage hshape hleft hsize =>
    exact (Logs.asked s _).trans (.met (e := .found f val) hshape rfl rfl)

/-- Reading a value sets an error exactly when it cannot be read. -/
theorem readScalar_logs (f : FieldInfo) (s : Deserializer) (result : Value × Bool)
    (h : result.2 = true ↔ Readable env f s.scalarValue) :
    Logs env custom s (readScalar f s result).1 := by
  obtain ⟨value, ok⟩ := result
  cases ok with
  | true =>
    have hread : Readable env f s.scalarValue := h.mp rfl
    exact .met (e := .read f s.scalarValue) (fun hnot => hnot hread) rfl rfl
  | false =>
    have hread : ¬ Readable env f s.scalarValue := fun hread => Bool.false_ne_true (h.mpr hread)
    exact .met_setError (e := .read f s.scalarValue) hread rfl (by
      simp [readScalar, Deserializer.setInvalidFormatError, Deserializer.setError])

/-- The items of an array are read if each of them is, and there is one or there was one before. -/
theorem deserializeItems_ok_iff (k : ScalarKind) (ok : Bool) (list : List k.Carrier)
    (items : List JsonValue) :
    (deserializeItems env k ok list items).2 = true ↔
      (ok = true ∨ items ≠ []) ∧ ∀ item ∈ items, (deserializeScalar env k item).2 = true := by
  induction items generalizing ok list with
  | nil => simp [deserializeItems]
  | cons item items ih =>
    cases hitem : deserializeScalar env k item with
    | mk v accepted =>
      cases accepted with
      | true => simp [deserializeItems, hitem, ih]
      | false => simp [deserializeItems, hitem]

/-- A list is read exactly from a nonempty array of readable items. -/
theorem deserializeList_ok_iff (k : ScalarKind) (value : JsonValue) :
    (deserializeList env k value).2 = true ↔ ∃ items, value = .array items ∧ items ≠ [] ∧
      ∀ item ∈ items, (deserializeScalar env k item).2 = true := by
  cases value with
  | array items =>
    have hitems := @deserializeItems_ok_iff env k false [] items
    simpa [deserializeList] using hitems
  | _ => simp [deserializeList]

/-- Every scalar field accounts for the error by the value that was read for it. -/
theorem deserializeScalarField_logs (f : FieldInfo) (s : Deserializer) (v : Value) :
    Logs env custom s (deserializeScalarField env f s v).1 := by
  unfold deserializeScalarField
  split
  · rename_i k hf
    apply readScalar_logs
    simp only [Readable, hf, deserializeCommon]
  · rename_i k hf
    apply readScalar_logs
    simp only [Readable, hf, deserializeList_ok_iff]
  · exact .refl env custom s

/-- A custom deserializer accounts for the error by whether there is one for the type. -/
theorem interceptMessageField_logs {t : MessageType} {s s' : Deserializer} {m m' : Message}
    {ok : Bool} (h : interceptMessageField custom t s m = some (s', m', ok)) :
    Logs env custom s s' := by
  obtain ⟨value, -, hresult⟩ := Option.map_eq_some_iff.mp h
  split at hresult
  · rename_i deserializer hcustom
    obtain ⟨rfl, -, -⟩ := hresult
    have hnot : ¬ (Event.message t m value).Reported env custom := by
      simp [Event.Reported, hcustom]
    exact .met hnot rfl rfl
  · rename_i hcustom
    obtain ⟨rfl, -, -⟩ := hresult
    exact .met_setError (e := .message t m value) hcustom rfl (by
      simp [Deserializer.setInvalidFormatError, Deserializer.setError])

/-- Whatever the decoder does is logged. -/
theorem format_within : (format env custom S).Within (Logs env custom) where
  refl := .refl env custom
  trans := .trans
  nextFieldIndex fuel t s m := (nextFieldIndex_step env S t s).logs
  deserializeEnum f s v := .refl env custom s
  deserializeScalarField f s v := deserializeScalarField_logs f s v
  setError s error text herror := .met_setError (e := .failed error) herror rfl herror
  interceptMessageField t s m s' m' ok h := interceptMessageField_logs h

variable (custom) in
/-- The last thing that was met ended the decoding with the result `false`. -/
def Stopped (s : Deserializer) : Prop := ∃ e ∈ s.events.getLast?, e.Stops custom

/-- Whether the decoding stops after something was met depends on this alone. -/
theorem stopped_met (s : Deserializer) (e : Event) : Stopped custom (s.met e) ↔ e.Stops custom := by
  simp [Stopped, Deserializer.met]

/-- An error that is set afterwards does not change whether the decoding stops. -/
theorem stopped_met_setError (s : Deserializer) (e : Event) (error : SerializerError)
    (text : String) : Stopped custom ((s.met e).setError error text) ↔ e.Stops custom :=
  stopped_met s e

/-- `nextFieldIndex` stops nothing. -/
theorem NextStep.not_stopped {t : MessageType} {s s' : Deserializer} {next : NextField}
    (h : NextStep env S t s s' next) : ¬ Stopped custom s' := by
  cases h <;>
    simp [Stopped, Deserializer.met, Deserializer.setInvalidFormatError, Deserializer.setError,
      Event.Stops]

/-- The field that is found is one of the message's. -/
theorem NextStep.field_ne_none {t : MessageType} {s s' : Deserializer} {next : NextField} {i : Nat}
    (h : NextStep env S t s s' next) (hi : (S.propertyOrdering t).fields[i]? = none) :
    next ≠ .field i := by
  rintro rfl
  cases h <;> simp_all

/-- A value that is read is handed on as it is. -/
theorem readScalar_value (f : FieldInfo) (s : Deserializer) (result : Value × Bool) :
    (readScalar f s result).2.1 = result.1 := by
  obtain ⟨value, ok⟩ := result
  cases ok <;> rfl

/-- What was read was the last thing that was met. -/
theorem readScalar_stopped_iff (f : FieldInfo) (s : Deserializer) (result : Value × Bool) :
    Stopped custom (readScalar f s result).1 ↔ (Event.read f s.scalarValue).Stops custom := by
  obtain ⟨value, ok⟩ := result
  cases ok with
  | true => exact stopped_met s _
  | false => exact stopped_met_setError s _ _ _

/-- A scalar property without a value was to be read from something that is no list. -/
theorem deserializeScalarField_stopped (f : FieldInfo) (s : Deserializer) (v : Value)
    (hok : (deserializeScalarField env f s v).2.2 = true)
    (h : (deserializeScalarField env f s v).2.1.isNull = true) :
    Stopped custom (deserializeScalarField env f s v).1 := by
  unfold deserializeScalarField at hok h ⊢
  split at hok
  · rename_i k hf
    rw [hf] at h
    simp [readScalar_value, deserializeCommon, Value.isNull] at h
  · rename_i k hf
    simp only [hf] at h ⊢
    rw [readScalar_value, isNull_deserializeList] at h
    refine (readScalar_stopped_iff f s _).mpr ⟨⟨k, hf⟩, fun items hitems => ?_⟩
    rw [hitems] at h
    cases h
  · simp at hok

/-- Where a custom deserializer gives `false`, the decoding stops there. -/
theorem interceptMessageField_stopped {t : MessageType} {s s' : Deserializer} {m m' : Message}
    (h : interceptMessageField custom t s m = some (s', m', false)) : Stopped custom s' := by
  obtain ⟨value, -, hresult⟩ := Option.map_eq_some_iff.mp h
  split at hresult
  · rename_i deserializer hcustom
    simp only [Prod.mk.injEq] at hresult
    obtain ⟨rfl, -, hok⟩ := hresult
    refine (stopped_met s _).mpr fun deserializer' hcustom' => ?_
    obtain rfl : deserializer = deserializer' := by simpa [hcustom] using hcustom'
    exact hok
  · rename_i hcustom
    simp only [Prod.mk.injEq] at hresult
    obtain ⟨rfl, -, -⟩ := hresult
    refine (stopped_met_setError s _ _ _).mpr fun deserializer hcustom' => ?_
    rw [hcustom] at hcustom'
    cases hcustom'

/-- A nested message with the result `false` was stopped. -/
theorem deserializeMessageField_stopped {fuel : Nat}
    (hloop : ∀ t seen cache s m ok,
      (deserializeLoop (format env custom S) S fuel t seen cache s m).2.2 = .returned ok →
      (Stopped custom (deserializeLoop (format env custom S) S fuel t seen cache s m).1 ↔ ok = false))
    (t : MessageType) (s : Deserializer) (m : Message)
    (h : (deserializeMessageField (format env custom S) S fuel t s m).2.2 = .returned false) :
    Stopped custom (deserializeMessageField (format env custom S) S fuel t s m).1 := by
  unfold deserializeMessageField at h ⊢
  split at h
  · rename_i s' m' ok hs'
    obtain rfl : ok = false := by simpa using h
    exact interceptMessageField_stopped hs'
  · exact (hloop t [] {} s m false h).mpr rfl

/-- A field that makes the loop return was stopped. -/
theorem fieldStep_stopped {nested : MessageType → Deserializer → Message →
      Deserializer × Message × Outcome}
    (hnested : ∀ t s m, (nested t s m).2.2 = .returned false → Stopped custom (nested t s m).1)
    {s s' : Deserializer} {f : FieldInfo} {ok : Bool}
    (hstep : FieldStep (format env custom S) S nested f s s' (some (.returned ok))) :
    ok = false ∧ Stopped custom s' := by
  generalize hstop : some (Outcome.returned ok) = stop at hstep
  cases hstep with
  | message t m ht =>
    split at hstop
    · simp at hstop
    · rename_i hne
      have hresult : (nested t s m).2.2 = .returned ok := (Option.some.inj hstop).symm
      cases ok with
      | true => exact absurd hresult hne
      | false => exact ⟨rfl, hnested t s m hresult⟩
  | enum => simp at hstop
  | handler => split at hstop <;> simp at hstop
  | enumFailed v | noHandler v =>
    obtain rfl : ok = false := by simpa using hstop
    exact ⟨rfl, (stopped_met_setError _ _ _ _).mpr trivial⟩
  | scalar v hf hok =>
    split at hstop
    · rename_i hnull
      obtain rfl : ok = false := by simpa using hstop
      exact ⟨rfl, deserializeScalarField_stopped f s v hok hnull⟩
    · simp at hstop

/-- The loop is left with the result `false` exactly by what stops it. -/
theorem deserializeLoop_stopped (fuel : Nat) (t : MessageType) (seen : List Nat) (cache : Cache)
    (s : Deserializer) (m : Message) (ok : Bool)
    (h : (deserializeLoop (format env custom S) S fuel t seen cache s m).2.2 = .returned ok) :
    Stopped custom (deserializeLoop (format env custom S) S fuel t seen cache s m).1 ↔ ok = false := by
  induction fuel generalizing t seen cache s m ok with
  | zero => simp [deserializeLoop] at h
  | succ fuel ih =>
    have hnested := deserializeMessageField_stopped ih
    have hnext := nextFieldIndex_step env S t s
    have hstep := deserializeLoop_step (format env custom S) S fuel t seen cache s m
    generalize (deserializeLoop (format env custom S) S (fuel + 1) t seen cache s m).1 = final,
      (deserializeLoop (format env custom S) S (fuel + 1) t seen cache s m).2.2 = outcome at hstep h
    cases hstep with
    | outOfFuel m hi => exact absurd hi hnext.ne_outOfFuel
    | finished m s' ok' hi hfinish =>
      obtain rfl : ok' = ok := by simpa using h
      have hs' : ¬ Stopped custom (nextFieldIndex env S t s).1 := hnext.not_stopped
      replace hfinish : FinishStep (format env custom S) S t (nextFieldIndex env S t s).1 final ok' :=
        hfinish
      cases hfinish with
      | notStored => simp [failToStore, format, stopped_met_setError, Event.Stops]
      | checked seen => simpa [checkRequiredFields, format] using hs'
    | noField m i hi hf => exact absurd hi (hnext.field_ne_none hf)
    | notStored m i hi =>
      obtain rfl : false = ok := by simpa using h
      simp [failToStore, format, stopped_met_setError, Event.Stops]
    | stopped m i f s' outcome hi hf hstep =>
      subst h
      obtain ⟨rfl, hs'⟩ := fieldStep_stopped hnested hstep
      simpa using hs'
    | continued m m' i f s' seen cache hi hf hstep => exact ih t seen cache s' m' ok h

/-- An object is decoded to its end: the decoder always returns. -/
theorem deserializeObject_returns (env : JsonEnvironment) (custom : CustomDeserializers)
    (S : Schema) (t : MessageType) (obj : JsonObject) (m : Message) :
    ∃ ok, (deserializeObject env custom S t obj m).2.2 = .returned ok := by
  have hreturns := deserializeLoop_returns env custom S obj.size (decodingBound S obj.size t) t [] {}
    { state := [{ obj }] } m { obj } [] rfl (Nat.le_refl _) (by
      rw [decodingBound_eq, JsonState.left]
      simp only [Nat.sub_zero]
      omega)
  cases hresult : (deserializeObject env custom S t obj m).2.2 with
  | outOfFuel => exact absurd hresult hreturns
  | returned ok => exact ⟨ok, rfl⟩

/-- For every object, the result agrees with the error exactly when the things that were met do. -/
theorem deserializeObject_agrees_iff (t : MessageType) (obj : JsonObject) (m : Message) :
    ResultAgrees (deserializeObject env custom S t obj m) ↔
      Agrees env custom (deserializeObject env custom S t obj m).1.events := by
  obtain ⟨ok, hok⟩ := deserializeObject_returns env custom S t obj m
  have hlogs : Logs env custom {} (deserializeObject env custom S t obj m).1 :=
    deserializeLoop_within (format_within (S := S)) _ t [] {} { state := [{ obj }] } m
  obtain ⟨met, hevents, herror⟩ := hlogs
  have hstopped : Stopped custom (deserializeObject env custom S t obj m).1 ↔ ok = false :=
    deserializeLoop_stopped _ t [] {} { state := [{ obj }] } m ok hok
  have hreported : (deserializeObject env custom S t obj m).1.lastError ≠ .none ↔
      ∃ e ∈ (deserializeObject env custom S t obj m).1.events, e.Reported env custom := by
    simpa [hevents] using herror
  rw [Agrees, ← Stopped, hstopped, ← hreported]
  cases ok <;> simp [ResultAgrees, hok]

/-- The result agrees with the error if and only if what was met tells no difference between
stopping and being reported. -/
theorem resultAgrees_iff (env : JsonEnvironment) (custom : CustomDeserializers) (S : Schema)
    (t : MessageType) (data : Bytes) (m : Message) :
    ResultAgrees (deserialize env custom S t data m) ↔
      Agrees env custom (deserialize env custom S t data m).1.events := by
  unfold deserialize
  split
  · simp [ResultAgrees, Agrees, Deserializer.setUnexpectedEndOfStreamError, Deserializer.setError]
  · simp [ResultAgrees, Agrees]
  · exact deserializeObject_agrees_iff t _ m
  · simp [ResultAgrees, Agrees, Deserializer.setInvalidFormatError, Deserializer.setError]

/-- A message type with a time stamp, which has a custom deserializer, and an integer. -/
def stampedSchema : Schema where
  message
    | 0 => ⟨"Stamped", [
        { fieldNumber := 1, jsonName := "at", type := .message 1 },
        { fieldNumber := 2, jsonName := "id", type := .scalar .int32 }],
        by decide, by decide, by decide⟩
    | _ => ⟨"Timestamp", [{ fieldNumber := 1, jsonName := "seconds", type := .scalar .int64 }],
        by decide, by decide, by decide⟩
  enumKeys _ := []
  findHandler _ := none
  typeName _ := ""

/-- A deserializer that takes strings only. -/
def stampDeserializers : CustomDeserializers
  | 1 => some fun m value => match value with
    | .string _ => (m, true)
    | _ => (m, false)
  | _ => none

/-- The text `{"id":"x"}`: the integer is reported, and the result is `true`. The text `{"at":5}`:
the time stamp is refused, and there is no error. -/
theorem not_resultAgrees_defaulted_refused :
    ¬ ResultAgrees (deserialize
        (.ofDocument [0x7B, 0x22, 0x69, 0x64, 0x22, 0x3A, 0x22, 0x78, 0x22, 0x7D]
          [("id", .string "x")])
        stampDeserializers stampedSchema (.named 0)
        [0x7B, 0x22, 0x69, 0x64, 0x22, 0x3A, 0x22, 0x78, 0x22, 0x7D]
        (stampedSchema.defaultMessage (.named 0))) ∧
      ¬ ResultAgrees (deserialize
        (.ofDocument [0x7B, 0x22, 0x61, 0x74, 0x22, 0x3A, 0x35, 0x7D] [("at", .integer 5)])
        stampDeserializers stampedSchema (.named 0)
        [0x7B, 0x22, 0x61, 0x74, 0x22, 0x3A, 0x35, 0x7D]
        (stampedSchema.defaultMessage (.named 0))) :=
  ⟨not_resultAgrees _ true (by decide) (by decide),
    not_resultAgrees _ false (by decide) (by decide)⟩

end QtGrpc.Protobuf.Json
