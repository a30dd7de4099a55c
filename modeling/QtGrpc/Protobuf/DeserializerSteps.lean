import QtGrpc.Protobuf.DeserializerBase

/-!
# What one iteration of the decoding loop can do

The effect of the loop on the state of its format, with the decoded message left out: a loop
ends where `nextFieldIndex` ends it or where a field fails, and a field calls one of the virtual
functions. Facts about a format that hold across its virtual functions hold across the loop.
-/

namespace QtGrpc.Protobuf

variable {σ : Type} (b : Format σ) (S : Schema)

/-- The state and the early return of one field, given what becomes of nested messages. -/
inductive FieldStep (nested : MessageType → σ → Message → σ × Message × Outcome) (f : FieldInfo)
    (s : σ) : σ → Option Outcome → Prop where
  | message (t : MessageType) (m : Message) (ht : f.type.nestedType = some t) :
      FieldStep nested f s (nested t s m).1
        (if (nested t s m).2.2 = .returned true then none else some (nested t s m).2.2)
  | enum (v : Value) (hf : f.type.isEnum) (hok : (b.deserializeEnum f s v).2.2 = true) :
      FieldStep nested f s (b.deserializeEnum f s v).1 none
  | enumFailed (v : Value) (hf : f.type.isEnum) (hok : (b.deserializeEnum f s v).2.2 = false) :
      FieldStep nested f s
        (b.setError (b.deserializeEnum f s v).1 .unknownType
          "Unable to covert enum field to compatible serialization format")
        (some (.returned false))
  | scalar (v : Value) (hf : f.type.isEnum = false)
      (hok : (b.deserializeScalarField f s v).2.2 = true) :
      FieldStep nested f s (b.deserializeScalarField f s v).1
        (if (b.deserializeScalarField f s v).2.1.isNull then some (.returned false) else none)
  | noHandler (v : Value) (hf : f.type.isEnum = false)
      (hok : (b.deserializeScalarField f s v).2.2 = false) (hh : S.handlerOf f.type = none) :
      FieldStep nested f s
        (b.setError (b.deserializeScalarField f s v).1 .unknownType
          ("No deserializer is registered for type " ++ S.typeName f.type))
        (some (.returned false))
  | handler (v : Value) (handler : Handler) (hf : f.type.isEnum = false)
      (hok : (b.deserializeScalarField f s v).2.2 = false)
      (hh : S.handlerOf f.type = some handler) :
      FieldStep nested f s
        (nested handler.proxy (b.deserializeScalarField f s v).1
          (S.defaultMessage handler.proxy)).1
        (if (nested handler.proxy (b.deserializeScalarField f s v).1
          (S.defaultMessage handler.proxy)).2.2 = .outOfFuel then some .outOfFuel else none)

/-- Reading a field that is no enumeration is a step of the kind described. -/
theorem deserializeWithHandler_step
    (nested : MessageType → σ → Message → σ × Message × Outcome)
    (f : FieldInfo) (hf : f.type.isEnum = false) (cache : Cache) (s : σ) (m : Message) :
    FieldStep b S nested f s (deserializeWithHandler b S nested f cache s m).state
      (deserializeWithHandler b S nested f cache s m).stop := by
  have hscalar := @FieldStep.scalar _ b S nested f s cache.propertyValue hf
  have hnone := @FieldStep.noHandler _ b S nested f s cache.propertyValue hf
  have hsome := fun handler =>
    @FieldStep.handler _ b S nested f s cache.propertyValue handler hf
  unfold deserializeWithHandler
  generalize b.deserializeScalarField f s cache.propertyValue = r at hscalar hnone hsome
  obtain ⟨s', v, ok⟩ := r
  cases ok with
  | true => exact hscalar rfl
  | false =>
    cases hh : S.handlerOf f.type with
    | none => exact hnone rfl hh
    | some handler =>
      have h := hsome handler rfl hh
      simp only
      generalize nested handler.proxy s' (S.defaultMessage handler.proxy) = r at h
      obtain ⟨s'', object, outcome⟩ := r
      cases outcome with
      | outOfFuel => exact h
      | returned ok => cases v <;> exact h

/-- One field does one of the things listed. -/
theorem deserializeProperty_step (nested : MessageType → σ → Message → σ × Message × Outcome)
    (i : Nat) (f : FieldInfo) (cache : Cache) (s : σ) (m : Message) :
    FieldStep b S nested f s (deserializeProperty b S nested i f cache s m).state
      (deserializeProperty b S nested i f cache s m).stop := by
  have hmessage := @FieldStep.message _ b S nested f s
  have henum := @FieldStep.enum _ b S nested f s cache.propertyValue
  have hfailed := @FieldStep.enumFailed _ b S nested f s cache.propertyValue
  unfold deserializeProperty
  split
  case h_1 t _ sub ht _ => exact hmessage _ sub (by simp [PropertyType.nestedType, ht])
  case h_2 t _ ms ht _ => exact hmessage _ _ (by simp [PropertyType.nestedType, ht])
  case h_3 key value entries ht _ =>
    have h := hmessage (.mapEntry key value) (S.addNext key value cache.mapEntry)
      (by simp [PropertyType.nestedType, ht])
    generalize nested (.mapEntry key value) s (S.addNext key value cache.mapEntry) = r at h ⊢
    obtain ⟨s', entry, outcome⟩ := r
    simp only at h ⊢
    split <;> simp_all
  case h_4 _ _ e hf | h_5 _ _ e hf =>
    have hisEnum : f.type.isEnum := by simp [PropertyType.isEnum, hf]
    generalize b.deserializeEnum f s cache.propertyValue = r at henum hfailed ⊢
    obtain ⟨s', v', ok⟩ := r
    cases ok with
    | true => exact henum hisEnum rfl
    | false => exact hfailed hisEnum rfl
  case h_6 h1 h2 h3 h4 h5 =>
    refine deserializeWithHandler_step b S nested f ?_ cache s m
    cases ht : f.type <;> simp_all [PropertyType.isEnum]

/-- What happens behind the loop: a property cannot be stored, or the required fields are
checked. -/
inductive FinishStep (t : MessageType) (s : σ) : σ → Bool → Prop where
  | notStored : FinishStep t s (failToStore b s) false
  | checked (seen : List Nat) :
      FinishStep t s (checkRequiredFields b S t seen s).1 (checkRequiredFields b S t seen s).2

/-- What the loop returns, in terms of its first iteration. -/
inductive LoopStep (fuel : Nat) (t : MessageType) (s : σ) : σ → Outcome → Prop where
  | outOfFuel (m : Message) (hnext : (b.nextFieldIndex (fuel + 1) t s m).2.2 = .outOfFuel) :
      LoopStep fuel t s (b.nextFieldIndex (fuel + 1) t s m).1 .outOfFuel
  | finished (m : Message) (s' : σ) (ok : Bool)
      (hnext : (b.nextFieldIndex (fuel + 1) t s m).2.2 = .finished)
      (hfinish : FinishStep b S t (b.nextFieldIndex (fuel + 1) t s m).1 s' ok) :
      LoopStep fuel t s s' (.returned ok)
  | noField (m : Message) (i : Nat)
      (hnext : (b.nextFieldIndex (fuel + 1) t s m).2.2 = .field i)
      (hfield : (S.propertyOrdering t).fields[i]? = none) :
      LoopStep fuel t s (b.nextFieldIndex (fuel + 1) t s m).1 (.returned false)
  | notStored (m : Message) (i : Nat)
      (hnext : (b.nextFieldIndex (fuel + 1) t s m).2.2 = .field i) :
      LoopStep fuel t s (failToStore b (b.nextFieldIndex (fuel + 1) t s m).1) (.returned false)
  | stopped (m : Message) (i : Nat) (f : FieldInfo) (s' : σ) (outcome : Outcome)
      (hnext : (b.nextFieldIndex (fuel + 1) t s m).2.2 = .field i)
      (hfield : (S.propertyOrdering t).fields[i]? = some f)
      (hstep : FieldStep b S (deserializeMessageField b S fuel) f
        (b.nextFieldIndex (fuel + 1) t s m).1 s' (some outcome)) :
      LoopStep fuel t s s' outcome
  | continued (m m' : Message) (i : Nat) (f : FieldInfo) (s' : σ) (seen : List Nat) (cache : Cache)
      (hnext : (b.nextFieldIndex (fuel + 1) t s m).2.2 = .field i)
      (hfield : (S.propertyOrdering t).fields[i]? = some f)
      (hstep : FieldStep b S (deserializeMessageField b S fuel) f
        (b.nextFieldIndex (fuel + 1) t s m).1 s' none) :
      LoopStep fuel t s (deserializeLoop b S fuel t seen cache s' m').1
        (deserializeLoop b S fuel t seen cache s' m').2.2

/-- So is the end of a message. -/
theorem finishMessage_step (t : MessageType) (seen : List Nat) (cache : Cache) (s : σ)
    (m : Message) :
    ∃ ok, (finishMessage b S t seen cache s m).2.2 = .returned ok ∧
      FinishStep b S t s (finishMessage b S t seen cache s m).1 ok := by
  unfold finishMessage
  split
  · exact ⟨false, rfl, .notStored⟩
  · exact ⟨_, rfl, .checked seen⟩

/-- One iteration of the loop, with the nested calls by their name. -/
theorem deserializeLoop_succ (fuel : Nat) (t : MessageType) (seen : List Nat) (cache : Cache)
    (s : σ) (m : Message) :
    deserializeLoop b S (fuel + 1) t seen cache s m =
      match b.nextFieldIndex (fuel + 1) t s m with
      | (s, m, .outOfFuel) => (s, m, .outOfFuel)
      | (s, m, .finished) => finishMessage b S t seen cache s m
      | (s, m, .field i) =>
        match (S.propertyOrdering t).fields[i]? with
        | none => (s, m, .returned false)
        | some f =>
          match selectProperty S t i f cache m with
          | (_, m, false) => (failToStore b s, m, .returned false)
          | (cache, m, true) =>
            let result := deserializeProperty b S (deserializeMessageField b S fuel) i f cache s m
            match result.stop with
            | some outcome => (result.state, result.message, outcome)
            | none => deserializeLoop b S fuel t (i :: seen) result.cache result.state
                result.message := rfl

/-- The loop does one of the things listed. -/
theorem deserializeLoop_step (fuel : Nat) (t : MessageType) (seen : List Nat) (cache : Cache)
    (s : σ) (m : Message) :
    LoopStep b S fuel t s (deserializeLoop b S (fuel + 1) t seen cache s m).1
      (deserializeLoop b S (fuel + 1) t seen cache s m).2.2 := by
  have hout := @LoopStep.outOfFuel _ b S fuel t s m
  have hfinished := @LoopStep.finished _ b S fuel t s m
  have hnoField := @LoopStep.noField _ b S fuel t s m
  have hnotStored := @LoopStep.notStored _ b S fuel t s m
  have hstopped := @LoopStep.stopped _ b S fuel t s m
  have hcontinued := @LoopStep.continued _ b S fuel t s m
  rw [deserializeLoop_succ]
  generalize b.nextFieldIndex (fuel + 1) t s m = r at *
  obtain ⟨s', m', next⟩ := r
  cases next with
  | outOfFuel => exact hout rfl
  | finished =>
    obtain ⟨ok, hok, hstep⟩ := finishMessage_step b S t seen cache s' m'
    simp only [hok]
    exact hfinished _ ok rfl hstep
  | field i =>
    cases hfield : (S.propertyOrdering t).fields[i]? with
    | none =>
      simp only [hfield]
      exact hnoField i rfl hfield
    | some f =>
      simp only [hfield]
      rcases selectProperty S t i f cache m' with ⟨cache', m'', ok⟩
      cases ok with
      | false => exact hnotStored i rfl
      | true =>
        have hstep := deserializeProperty_step b S (deserializeMessageField b S fuel) i f cache'
          s' m''
        simp only
        split
        case h_1 outcome hstop =>
          rw [hstop] at hstep
          exact hstopped i f _ outcome rfl hfield hstep
        case h_2 hstop =>
          rw [hstop] at hstep
          exact hcontinued _ i f _ _ _ rfl hfield hstep

/-- A relation on the states of a format that all of its virtual functions stay within. -/
structure Format.Within (R : σ → σ → Prop) : Prop where
  refl : ∀ s, R s s
  trans : ∀ {s₁ s₂ s₃}, R s₁ s₂ → R s₂ s₃ → R s₁ s₃
  nextFieldIndex : ∀ fuel t s m, R s (b.nextFieldIndex fuel t s m).1
  deserializeEnum : ∀ f s v, R s (b.deserializeEnum f s v).1
  deserializeScalarField : ∀ f s v, R s (b.deserializeScalarField f s v).1
  setError : ∀ s error text, error ≠ .none → R s (b.setError s error text)
  interceptMessageField : ∀ t s m s' m' ok, b.interceptMessageField t s m = some (s', m', ok) →
    R s s'

variable {b S}

/-- What the functions of a format keep, the end of a message keeps. -/
theorem FinishStep.within {R : σ → σ → Prop} (hb : b.Within R) {t : MessageType} {s s' : σ}
    {ok : Bool} (h : FinishStep b S t s s' ok) : R s s' := by
  cases h with
  | notStored => exact hb.setError _ _ _ (by simp)
  | checked seen =>
    unfold checkRequiredFields
    split
    · exact hb.refl s
    · simp only
      split
      · exact hb.refl s
      · exact hb.setError _ _ _ (by simp)

/-- So does a field, if nested messages do. -/
theorem FieldStep.within {R : σ → σ → Prop} (hb : b.Within R)
    {nested : MessageType → σ → Message → σ × Message × Outcome}
    (hnested : ∀ t s m, R s (nested t s m).1) {f : FieldInfo} {s s' : σ} {stop : Option Outcome}
    (h : FieldStep b S nested f s s' stop) : R s s' := by
  cases h with
  | message t m => exact hnested t s m
  | enum v => exact hb.deserializeEnum f s v
  | enumFailed v => exact hb.trans (hb.deserializeEnum f s v) (hb.setError _ _ _ (by simp))
  | scalar v => exact hb.deserializeScalarField f s v
  | noHandler v => exact hb.trans (hb.deserializeScalarField f s v) (hb.setError _ _ _ (by simp))
  | handler v handler => exact hb.trans (hb.deserializeScalarField f s v) (hnested ..)

/-- So does a nested message, if the loop does. -/
theorem deserializeMessageField_within {R : σ → σ → Prop} (hb : b.Within R) (fuel : Nat)
    (hloop : ∀ t seen cache s m, R s (deserializeLoop b S fuel t seen cache s m).1)
    (t : MessageType) (s : σ) (m : Message) : R s (deserializeMessageField b S fuel t s m).1 := by
  unfold deserializeMessageField
  split
  · exact hb.interceptMessageField _ _ _ _ _ _ ‹_›
  · exact hloop ..

/-- What the virtual functions of a format stay within, its decoding loop stays within. -/
theorem deserializeLoop_within {R : σ → σ → Prop} (hb : b.Within R) (fuel : Nat)
    (t : MessageType) (seen : List Nat) (cache : Cache) (s : σ) (m : Message) :
    R s (deserializeLoop b S fuel t seen cache s m).1 := by
  induction fuel generalizing t seen cache s m with
  | zero => exact hb.refl s
  | succ fuel ih =>
    have hnested := deserializeMessageField_within hb fuel ih
    have hstep := deserializeLoop_step b S fuel t seen cache s m
    generalize (deserializeLoop b S (fuel + 1) t seen cache s m).1 = final,
      (deserializeLoop b S (fuel + 1) t seen cache s m).2.2 = outcome at hstep
    cases hstep with
    | outOfFuel m => exact hb.nextFieldIndex ..
    | finished m s' ok _ hfinish => exact hb.trans (hb.nextFieldIndex ..) (hfinish.within hb)
    | noField m => exact hb.nextFieldIndex ..
    | notStored m => exact hb.trans (hb.nextFieldIndex ..) (hb.setError _ _ _ (by simp))
    | stopped m i f s' outcome _ _ hstep =>
      exact hb.trans (hb.nextFieldIndex ..) (hstep.within hb hnested)
    | continued m m' i f s' seen cache _ _ hstep =>
      exact hb.trans (hb.trans (hb.nextFieldIndex ..) (hstep.within hb hnested)) (ih ..)

end QtGrpc.Protobuf
