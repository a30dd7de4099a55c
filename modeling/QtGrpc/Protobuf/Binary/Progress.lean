import QtGrpc.Protobuf.Binary.Steps

/-!
# Termination of the binary decoder

Every header takes bytes, so the decoder ends within as many iterations as there are bytes,
unless an unknown field is skipped backwards or not at all. Both can be told from the header and
the payload: a length whose signed value leads back to the header or before it, and a varint
that goes on behind the end of the view.
-/

namespace QtGrpc.Protobuf.Binary

variable (env : Environment) (S : Schema)

namespace Visit

/-- The message type has no field of this number. -/
def IsUnknown (v : Visit) : Prop :=
  (S.propertyOrdering v.messageType).indexOfFieldNumber v.fieldNumber = none

/-- The iterator went over the varint of the header. -/
def HeaderRead (v : Visit) : Prop :=
  v.fieldBegin.bytesLeft ≠ 0 ∧
    ∃ value, deserializeVarintCommon env v.fieldBegin = (v.payload, some value)

/-- Skipping the field leaves the iterator strictly ahead of where the iteration started. -/
def StepsForward (v : Visit) : Prop :=
  ∃ it, skipPayload env v.wireType v.payload = some it ∧ v.fieldBegin.position < it.position

/-- The length of the payload, taken as a signed number, leads back to the header at least. -/
def Rewinds (v : Visit) : Prop :=
  v.wireType = .lengthDelimited ∧ ∃ it length,
    deserializeVarintCommon env v.payload = (it, some length) ∧ 2 ^ 63 ≤ length.toNat ∧
      it.position - v.fieldBegin.position + length.toNat ≤ 2 ^ 64

/-- No byte up to the second one behind the view ends the varint. -/
def RunsAway (v : Visit) : Prop :=
  v.wireType = .varint ∧ (∀ byte ∈ v.payload.rest, continues byte) ∧
    continues (env.beyond 0) ∧ continues (env.beyond 1)

/-- The field is known, or its payload neither leads back nor goes on for ever. -/
def Harmless (v : Visit) : Prop := v.IsUnknown S → ¬v.Rewinds env ∧ ¬v.RunsAway env

end Visit

/-- The skip runs past the end exactly when every byte there and the two behind it continue. -/
theorem skipVarintLoop_eq_none_iff (bytes : Bytes) :
    skipVarintLoop env bytes = none ↔
      (∀ byte ∈ bytes, continues byte) ∧ continues (env.beyond 0) ∧ continues (env.beyond 1) := by
  induction bytes with
  | nil =>
    simp only [skipVarintLoop]
    split <;> simp_all
  | cons byte rest ih =>
    by_cases h : continues byte
    · simpa [skipVarintLoop, h] using ih
    · simp [skipVarintLoop, h]

/-- A varint that is skipped has at least one byte. -/
theorem skipVarintLoop_pos {bytes : Bytes} {n : Nat} (h : skipVarintLoop env bytes = some n) :
    0 < n := by
  cases bytes with
  | nil =>
    simp only [skipVarintLoop] at h
    split at h
    · split at h
      · simp at h
      · simp only [Option.some.injEq] at h
        omega
    · simp only [Option.some.injEq] at h
      omega
  | cons byte rest =>
    simp only [skipVarintLoop] at h
    split at h
    · simp only [Option.map_eq_some_iff] at h
      omega
    · simp only [Option.some.injEq] at h
      omega

section

variable {env}

/-- The payload lies behind the header in the same bytes. -/
theorem Visit.HeaderRead.reads {v : Visit} (h : v.HeaderRead env) :
    Reads v.fieldBegin v.payload := by
  obtain ⟨-, value, hvarint⟩ := h
  simpa [hvarint] using deserializeVarintCommon_reads env v.fieldBegin

/-- A header takes a byte at least. -/
theorem Visit.HeaderRead.position_lt {v : Visit} (h : v.HeaderRead env) :
    v.fieldBegin.position < v.payload.position := by
  obtain ⟨-, value, hvarint⟩ := h
  exact deserializeVarintCommon_position_lt hvarint

/-- The payload begins at a place of the input. -/
theorem Visit.HeaderRead.isValid {v : Visit} (h : v.HeaderRead env) : v.payload.isValid :=
  h.reads.isValid (Iterator.isValid_of_bytesLeft h.1)

end

/-- Skipping a length-delimited payload moves forward unless the length takes it back. -/
theorem skipLengthDelimited_position_lt (v : Visit) (h : v.HeaderRead env)
    (hwire : v.wireType = .lengthDelimited) :
    v.fieldBegin.position < (skipLengthDelimited env v.payload).position ↔ ¬v.Rewinds env := by
  have hlt := h.position_lt
  have hread := deserializeVarintCommon_reads env v.payload
  have hvalid := hread.isValid h.isValid
  have hle := hread.position_le
  unfold skipLengthDelimited Visit.Rewinds
  rcases hvarint : deserializeVarintCommon env v.payload with ⟨it, _ | length⟩
  · rw [hvarint] at hvalid hle
    simp only [Iterator.position_advance hvalid] at hle ⊢
    simp
    omega
  · rw [hvarint] at hvalid hle
    have hbound := length.isLt
    simp only at hle
    simp only [Iterator.position_advance hvalid, BitVec.toInt_eq_toNat_cond, hwire, true_and,
      Prod.mk.injEq, Option.some.injEq, exists_and_left, and_assoc, exists_eq_left']
    split <;> omega

/-- Skipping a varint moves forward unless it runs away. -/
theorem skipVarint_forward (v : Visit) (h : v.HeaderRead env) (hwire : v.wireType = .varint) :
    (∃ it, skipVarint env v.payload = some it ∧ v.fieldBegin.position < it.position) ↔
      ¬v.RunsAway env := by
  have hlt := h.position_lt
  have hrun : v.RunsAway env ↔ skipVarintLoop env v.payload.rest = none := by
    rw [skipVarintLoop_eq_none_iff]
    simp [Visit.RunsAway, hwire]
  rw [hrun]
  unfold skipVarint
  cases hloop : skipVarintLoop env v.payload.rest with
  | none => simp
  | some n =>
    have hpos := skipVarintLoop_pos env hloop
    have hposition := Iterator.position_advance h.isValid (n : Int)
    refine iff_of_true ⟨_, rfl, ?_⟩ (by simp)
    rw [hposition]
    omega

/-- An unknown field is skipped forward exactly if its payload is harmless. -/
theorem Visit.stepsForward_iff (v : Visit) (h : v.HeaderRead env) :
    v.StepsForward env ↔ ¬v.Rewinds env ∧ ¬v.RunsAway env := by
  have hlt := h.position_lt
  unfold Visit.StepsForward skipPayload
  cases hwire : v.wireType with
  | varint =>
    have hrewind : ¬v.Rewinds env := by simp [Visit.Rewinds, hwire]
    simpa [hrewind] using skipVarint_forward env v h hwire
  | lengthDelimited =>
    have hrun : ¬v.RunsAway env := by simp [Visit.RunsAway, hwire]
    simpa [hrun] using skipLengthDelimited_position_lt env v h hwire
  | fixed32 | fixed64 =>
    simp only [Option.some.injEq, exists_eq_left', Iterator.position_advance h.isValid,
      Visit.Rewinds, Visit.RunsAway, hwire]
    simp
    omega

/-- Skipping a payload stays in the same container. -/
theorem skipPayload_container {w : WireType} {it it' : Iterator}
    (h : skipPayload env w it = some it') : it'.container = it.container := by
  cases w with
  | varint =>
    simp only [skipPayload, skipVarint, Option.map_eq_some_iff] at h
    obtain ⟨n, -, rfl⟩ := h
    simp
  | fixed32 | fixed64 =>
    simp only [skipPayload, Option.some.injEq] at h
    simp [← h]
  | lengthDelimited =>
    have hread := deserializeVarintCommon_reads env it
    simp only [skipPayload, Option.some.injEq, skipLengthDelimited] at h
    split at h
    all_goals
      rename_i hvarint
      rw [hvarint] at hread
      rw [← h, Iterator.container_advance]
      exact hread.container

/-- The records of the visits only grow, and as long as they are harmless every one of them
stands for a byte at least. -/
def Advances (d d' : Deserializer) : Prop :=
  ∃ new, d'.visits = d.visits ++ new ∧ (∀ v ∈ new, v.HeaderRead env) ∧
    ((∀ v ∈ new, v.Harmless env S) → new.length + d'.it.bytesLeft ≤ d.it.bytesLeft)

/-- Standing still is an advance. -/
theorem Advances.refl (d : Deserializer) : Advances env S d d := ⟨[], by simp⟩

/-- Advances compose. -/
theorem Advances.trans {env : Environment} {S : Schema} {d₁ d₂ d₃ : Deserializer}
    (h : Advances env S d₁ d₂) (h' : Advances env S d₂ d₃) : Advances env S d₁ d₃ := by
  obtain ⟨new, hv, hread, hcount⟩ := h
  obtain ⟨new', hv', hread', hcount'⟩ := h'
  refine ⟨new ++ new', by simp [hv', hv], ?_, fun hall => ?_⟩
  · intro v hmem
    rcases List.mem_append.mp hmem with hmem | hmem
    · exact hread v hmem
    · exact hread' v hmem
  · have h₁ := hcount fun v hmem => hall v (List.mem_append_left _ hmem)
    have h₂ := hcount' fun v hmem => hall v (List.mem_append_right _ hmem)
    simp only [List.length_append]
    omega

/-- A reader that only consumes advances. -/
theorem Consumes.advances {d d' : Deserializer} (h : Consumes d d') : Advances env S d d' :=
  ⟨[], by simp [h.visits], by simp, by simpa using h.reads.bytesLeft_le⟩

/-- The visit of a field whose header was decoded. -/
theorem visit_headerRead {d : Deserializer} {t : MessageType} {it : Iterator} {n : Nat}
    {w : WireType} (h : decodeHeader env d.it = (it, some (n, w))) :
    Visit.HeaderRead env ⟨t, d.it, it, n, w⟩ := decodeHeader_varint env h

/-- Entering a field only consumes. -/
theorem enterField_consumes (f : FieldInfo) (i : Nat) (d : Deserializer) :
    Reads d.it (enterField env f i d).1.it ∧ (enterField env f i d).1.visits = d.visits ∧
      (enterField env f i d).2 ≠ .outOfFuel := by
  have hread := deserializeVarintCommon_reads env d.it
  unfold enterField
  split
  · split
    case h_1 it hvarint => exact ⟨by simpa [hvarint] using hread, rfl, by simp⟩
    case h_2 it length hvarint =>
      rw [hvarint] at hread
      simp only
      split
      · exact ⟨hread, rfl, by simp⟩
      · exact ⟨hread, rfl, by simp⟩
  · exact ⟨.refl _, rfl, by simp⟩

/-- What `nextFieldIndex` did to the records, as long as they are harmless: it found a field
only behind a header, and the bytes left bound its iterations. -/
theorem nextFieldIndex_advances (fuel : Nat) (t : MessageType) (d : Deserializer) (m : Message) :
    ∃ new, (nextFieldIndex env S fuel t d m).1.visits = d.visits ++ new ∧
      (∀ v ∈ new, v.HeaderRead env) ∧
      ((∀ v ∈ new, v.Harmless env S) →
        new.length + (nextFieldIndex env S fuel t d m).1.it.bytesLeft ≤ d.it.bytesLeft ∧
        (∀ i, (nextFieldIndex env S fuel t d m).2.2 = .field i → new ≠ []) ∧
        (d.it.bytesLeft < fuel → (nextFieldIndex env S fuel t d m).2.2 ≠ .outOfFuel)) := by
  induction fuel generalizing d m with
  | zero => exact ⟨[], by simp [nextFieldIndex]⟩
  | succ fuel ih =>
    have hstep := nextFieldIndex_step env S fuel t d m
    generalize nextFieldIndex env S (fuel + 1) t d m = r at hstep ⊢
    cases hstep with
    | ended h =>
      refine ⟨[], ?_, by simp, ?_⟩ <;> unfold Deserializer.leaveFrame <;> split <;>
        simp [Deserializer.setUnexpectedEndOfStreamError, Deserializer.setError]
    | badHeader it h hheader =>
      have hread := decodeHeader_reads env d.it
      rw [hheader] at hread
      exact ⟨[], by simp [Deserializer.setError], by simp,
        by simpa [Deserializer.setError] using hread.bytesLeft_le⟩
    | stuck it n w h hheader hindex hskip =>
      have hheaderRead := visit_headerRead env (t := t) hheader
      refine ⟨[⟨t, d.it, it, n, w⟩], rfl, by simpa using hheaderRead, fun hall => ?_⟩
      obtain ⟨it', hit', -⟩ := (Visit.stepsForward_iff env _ hheaderRead).mpr
        (hall _ (List.mem_singleton_self _) hindex)
      simp only [hskip] at hit'
      cases hit'
    | overrun it it' n w h hheader hindex hskip hvalid =>
      have hheaderRead := visit_headerRead env (t := t) hheader
      refine ⟨[⟨t, d.it, it, n, w⟩], rfl, by simpa using hheaderRead, fun _ => ?_⟩
      have hleft : it'.bytesLeft = 0 := Iterator.bytesLeft_of_not_isValid hvalid
      have hpos := hheaderRead.1
      simp only [Deserializer.setUnexpectedEndOfStreamError, Deserializer.setError, hleft] at hpos ⊢
      simp
      omega
    | backwards it it' n w h hheader hindex hskip hvalid hback =>
      have hheaderRead := visit_headerRead env (t := t) hheader
      refine ⟨[⟨t, d.it, it, n, w⟩], rfl, by simpa using hheaderRead, fun hall => ?_⟩
      obtain ⟨it'', hit'', hlt⟩ := (Visit.stepsForward_iff env _ hheaderRead).mpr
        (hall _ (List.mem_singleton_self _) hindex)
      simp only [hskip, Option.some.injEq] at hit'' hlt
      subst hit''
      omega
    | skipped it it' n w m' h hheader hindex hskip hvalid hforward hm =>
      have hheaderRead := visit_headerRead env (t := t) hheader
      obtain ⟨new, hv, hread, hcount⟩ := ih { d.visit t it n w with it := it' } m'
      refine ⟨⟨t, d.it, it, n, w⟩ :: new, ?_, ?_, fun hall => ?_⟩
      · rw [hv]
        simp [Deserializer.visit]
      · simpa using ⟨hheaderRead, hread⟩
      · obtain ⟨it'', hit'', hlt⟩ := (Visit.stepsForward_iff env _ hheaderRead).mpr
          (hall _ List.mem_cons_self hindex)
        simp only [hskip, Option.some.injEq] at hit'' hlt
        subst hit''
        have hcontainer : it'.container = d.it.container := by
          rw [skipPayload_container env hskip, hheaderRead.reads.container]
        have hleft := Iterator.bytesLeft_lt hheaderRead.1 hcontainer hlt
        obtain ⟨hsum, -, hfuel⟩ := hcount fun v hmem => hall v (List.mem_cons_of_mem _ hmem)
        simp only [Deserializer.visit] at hsum hfuel hleft ⊢
        refine ⟨?_, by simp, fun hlt => hfuel (by omega)⟩
        simp only [List.length_cons]
        omega
    | noField it n w i h hheader hindex hfield =>
      have hheaderRead := visit_headerRead env (t := t) hheader
      have hleft := Iterator.bytesLeft_lt hheaderRead.1 hheaderRead.reads.container
        hheaderRead.position_lt
      refine ⟨[⟨t, d.it, it, n, w⟩], rfl, by simpa using hheaderRead, fun _ => ?_⟩
      simp only [Deserializer.visit, List.length_singleton] at hleft ⊢
      exact ⟨by omega, by simp, by simp⟩
    | known it n w i f h hheader hindex hfield =>
      have hheaderRead := visit_headerRead env (t := t) hheader
      have hleft := Iterator.bytesLeft_lt hheaderRead.1 hheaderRead.reads.container
        hheaderRead.position_lt
      obtain ⟨hread, hv, hfuel⟩ := enterField_consumes env f i (d.visit t it n w)
      have hle := hread.bytesLeft_le
      refine ⟨[⟨t, d.it, it, n, w⟩], hv, by simpa using hheaderRead, fun _ => ?_⟩
      simp only [Deserializer.visit, List.length_singleton] at hleft hle ⊢
      exact ⟨by omega, by simp, fun _ => hfuel⟩

/-- The functions of the binary format keep the count of visits within the bytes read. -/
theorem format_advances : (format env S).Within (Advances env S) where
  refl := Advances.refl env S
  trans := Advances.trans
  nextFieldIndex fuel t d m := by
    obtain ⟨new, hv, hread, hcount⟩ := nextFieldIndex_advances env S fuel t d m
    exact ⟨new, hv, hread, fun hall => (hcount hall).1⟩
  deserializeEnum f d v := (deserializeEnum_consumes env f d v).advances env S
  deserializeScalarField f d v := (deserializeScalarField_consumes env S f d v).advances env S
  setError d error text _ := (setError_consumes d error text).advances env S
  interceptMessageField := by simp [format]

/-- A message field of the binary format is decoded by the loop. -/
theorem deserializeMessageField_format (fuel : Nat) (t : MessageType) (d : Deserializer)
    (m : Message) :
    deserializeMessageField (format env S) S fuel t d m =
      deserializeLoop (format env S) S fuel t [] {} d m := rfl

/-- Every visit so far was harmless. -/
def AllHarmless (d : Deserializer) : Prop := ∀ v ∈ d.visits, v.Harmless env S

/-- Visits that are all harmless in the end were so before. -/
theorem Advances.allHarmless {env : Environment} {S : Schema} {d d' : Deserializer}
    (h : Advances env S d d') (hall : AllHarmless env S d') : AllHarmless env S d := by
  obtain ⟨new, hv, -⟩ := h
  intro v hmem
  exact hall v (by rw [hv]; exact List.mem_append_left _ hmem)

/-- Where all visits are harmless no bytes come back. -/
theorem Advances.bytesLeft_le {env : Environment} {S : Schema} {d d' : Deserializer}
    (h : Advances env S d d') (hall : AllHarmless env S d') :
    d'.it.bytesLeft ≤ d.it.bytesLeft := by
  obtain ⟨new, hv, -, hcount⟩ := h
  have := hcount fun v hmem => hall v (by rw [hv]; exact List.mem_append_right _ hmem)
  omega

/-- A field that was found left fewer bytes behind it. -/
theorem nextFieldIndex_bytesLeft_lt {fuel : Nat} {t : MessageType} {d : Deserializer} {m : Message}
    {i : Nat} (hfield : (nextFieldIndex env S fuel t d m).2.2 = .field i)
    (hall : AllHarmless env S (nextFieldIndex env S fuel t d m).1) :
    (nextFieldIndex env S fuel t d m).1.it.bytesLeft < d.it.bytesLeft := by
  obtain ⟨new, hv, -, hcount⟩ := nextFieldIndex_advances env S fuel t d m
  obtain ⟨hle, hne, -⟩ := hcount fun v hmem => hall v (by
    rw [hv]
    exact List.mem_append_right _ hmem)
  have := List.length_pos_iff.mpr (hne i hfield)
  omega

/-- Where all visits are harmless, more fuel than bytes is enough to find the next field. -/
theorem nextFieldIndex_ne_outOfFuel {fuel : Nat} {t : MessageType} {d : Deserializer} {m : Message}
    (hall : AllHarmless env S (nextFieldIndex env S fuel t d m).1)
    (hfuel : d.it.bytesLeft < fuel) : (nextFieldIndex env S fuel t d m).2.2 ≠ .outOfFuel := by
  obtain ⟨new, hv, -, hcount⟩ := nextFieldIndex_advances env S fuel t d m
  exact (hcount fun v hmem => hall v (by
    rw [hv]
    exact List.mem_append_right _ hmem)).2.2 hfuel

/-- One field does not run out of fuel if nested messages do not. -/
theorem FieldStep.ne_outOfFuel {nested : MessageType → Deserializer → Message →
      Deserializer × Message × Outcome} {f : FieldInfo} {d d' : Deserializer}
    {stop : Option Outcome} (h : FieldStep (format env S) S nested f d d' stop)
    (hnested : ∀ t d₁ m, Reads d.it d₁.it → d' = (nested t d₁ m).1 →
      (nested t d₁ m).2.2 ≠ .outOfFuel) : stop ≠ some .outOfFuel := by
  cases h with
  | message t m ht =>
    split
    · simp
    · simpa using hnested t d m (.refl _) rfl
  | enum => simp
  | enumFailed => simp
  | scalar => split <;> simp
  | noHandler => simp
  | handler v handler hf hok hh =>
    have hread := (deserializeScalarField_consumes env S f d v).reads
    rw [if_neg]
    · simp
    · exact hnested handler.proxy _ _ hread rfl

/-- With more fuel than bytes the loop returns. -/
theorem deserializeLoop_ne_outOfFuel (fuel : Nat) (t : MessageType) (seen : List Nat)
    (cache : Cache) (d : Deserializer) (m : Message)
    (hall : AllHarmless env S (deserializeLoop (format env S) S fuel t seen cache d m).1)
    (hfuel : d.it.bytesLeft < fuel) :
    (deserializeLoop (format env S) S fuel t seen cache d m).2.2 ≠ .outOfFuel := by
  induction fuel generalizing t seen cache d m with
  | zero => omega
  | succ fuel ih =>
    have hstep := deserializeLoop_step (format env S) S fuel t seen cache d m
    generalize (deserializeLoop (format env S) S (fuel + 1) t seen cache d m).1 = final,
      (deserializeLoop (format env S) S (fuel + 1) t seen cache d m).2.2 = outcome at hstep hall ⊢
    -- A nested message starts behind the header of its field, where one unit of fuel is to spare.
    have hnested : ∀ (m : Message) (i : Nat) (f : FieldInfo) (d' : Deserializer)
        (stop : Option Outcome), (nextFieldIndex env S (fuel + 1) t d m).2.2 = .field i →
        FieldStep (format env S) S (deserializeMessageField (format env S) S fuel) f
          (nextFieldIndex env S (fuel + 1) t d m).1 d' stop →
        AllHarmless env S d' →
        stop ≠ some .outOfFuel ∧ d'.it.bytesLeft < fuel := by
      intro m i f d' stop hnext hfield hall'
      have hwithin := hfield.within (format_advances env S)
        (deserializeMessageField_within (format_advances env S) fuel
          (deserializeLoop_within (format_advances env S) fuel))
      have hlt := nextFieldIndex_bytesLeft_lt env S hnext (hwithin.allHarmless hall')
      have hle := hwithin.bytesLeft_le hall'
      refine ⟨FieldStep.ne_outOfFuel env S hfield fun t₁ d₁ m₁ hread hd' => ?_, by omega⟩
      have hle₁ := hread.bytesLeft_le
      rw [deserializeMessageField_format] at hd' ⊢
      exact ih t₁ [] {} d₁ m₁ (hd' ▸ hall') (by omega)
    cases hstep with
    | outOfFuel m hnext => exact absurd hnext (nextFieldIndex_ne_outOfFuel env S hall hfuel)
    | finished => simp
    | noField => simp
    | notStored => simp
    | stopped m i f d' outcome hnext hfield hfieldStep =>
      intro houtcome
      subst houtcome
      exact (hnested m i f _ _ hnext hfieldStep hall).1 rfl
    | continued m m' i f d' seen cache hnext hfield hfieldStep =>
      have hrest := deserializeLoop_within (S := S) (format_advances env S) fuel t seen cache d' m'
      have hd' := (hnested m i f _ _ hnext hfieldStep (hrest.allHarmless hall)).2
      exact ih t seen cache d' m' hall hd'

/-- A decoder at the begin of its input has all bytes before it. -/
theorem started_bytesLeft (d : Deserializer) (data : Bytes) :
    (Serializer.started d data).it.bytesLeft = data.length := by
  simp [Serializer.started, Deserializer.reset, Iterator.fromView, Iterator.bytesLeft,
    Iterator.rest, Iterator.isValid]

/-- The decoder returned, every header it went over and every unknown field it skipped brought it
forward, and it took no more iterations than its input has bytes. -/
structure Terminates (data : Bytes) (result : Serializer × Message × Outcome) : Prop where
  returns : result.2.2 ≠ .outOfFuel
  headers : ∀ v ∈ result.1.deserializer.visits, v.fieldBegin.position < v.payload.position
  unknown : ∀ v ∈ result.1.deserializer.visits, v.IsUnknown S → v.StepsForward env
  bounded : result.1.deserializer.visits.length ≤ data.length

/-- What the decoding of one input did to the records, whatever its limit on the size. -/
theorem deserialize_visits (fuel : Nat) (s : Serializer) (t : MessageType) (data : Bytes) :
    let result := Serializer.deserialize env S fuel s t data
    (∀ v ∈ result.1.deserializer.visits, v.HeaderRead env) ∧
      ((∀ v ∈ result.1.deserializer.visits, v.Harmless env S) →
        result.1.deserializer.visits.length ≤ data.length ∧
          (data.length < fuel → result.2.2 ≠ .outOfFuel)) := by
  have hwithin := deserializeLoop_within (S := S) (format_advances env S) fuel t [] {}
    (Serializer.started s.deserializer data) (S.defaultMessage t)
  have hreturns := deserializeLoop_ne_outOfFuel env S fuel t [] {}
    (Serializer.started s.deserializer data) (S.defaultMessage t)
  rw [started_bytesLeft] at hreturns
  obtain ⟨new, hv, hread, hcount⟩ := hwithin
  rw [started_bytesLeft] at hcount
  have hnew : (Serializer.started s.deserializer data).visits = [] := rfl
  rw [hnew, List.nil_append] at hv
  simp only [Serializer.deserialize, deserializeMessage]
  split
  · simp [Serializer.setMessageTooLargeError]
  · unfold AllHarmless at hreturns
    generalize deserializeLoop (format env S) S fuel t [] {}
      (Serializer.started s.deserializer data) (S.defaultMessage t) = r at hv hreturns hcount ⊢
    obtain ⟨d, m, outcome⟩ := r
    simp only at hv hreturns hcount
    cases outcome with
    | outOfFuel =>
      simp only [hv]
      exact ⟨hread, fun hall => ⟨by have := hcount hall; omega, fun hfuel =>
        hreturns (by simpa [hv] using hall) hfuel⟩⟩
    | returned ok =>
      simp only [Deserializer.reset, hv]
      exact ⟨hread, fun hall => ⟨by have := hcount hall; omega, fun _ => by simp⟩⟩

/-- The decoder terminates within the size of its input exactly if no unknown field it visits
leads back to its own header or runs away behind the end of the view. -/
theorem terminates_iff (s : Serializer) (t : MessageType) (data : Bytes) :
    Terminates env S data (Serializer.deserialize env S (data.length + 1) s t data) ↔
      ∀ v ∈ (Serializer.deserialize env S (data.length + 1) s t data).1.deserializer.visits,
        v.IsUnknown S → ¬v.Rewinds env ∧ ¬v.RunsAway env := by
  obtain ⟨hread, hcount⟩ := deserialize_visits env S (data.length + 1) s t data
  constructor
  · intro h v hmem hunknown
    exact (v.stepsForward_iff env (hread v hmem)).mp (h.unknown v hmem hunknown)
  · intro hall
    obtain ⟨hbound, hreturns⟩ := hcount hall
    exact {
      returns := hreturns (Nat.lt_succ_self _)
      headers := fun v hmem => (hread v hmem).position_lt
      unknown := fun v hmem hunknown =>
        (v.stepsForward_iff env (hread v hmem)).mpr (hall v hmem hunknown)
      bounded := hbound }

/-- A view followed by null bytes. -/
def nullTerminated : Environment := ⟨fun _ => 0, fun _ _ => 0, fun _ => ""⟩

/-- A schema whose message types have no fields. -/
def emptySchema : Schema where
  message _ := .withoutFields "Empty"
  enumKeys _ := []
  findHandler _ := none
  typeName _ := ""

/-- One field whose length is `2 ^ 64 - 11`, the distance back to its header. -/
def lengthLeadingBack : Bytes :=
  [0x0A, 0xF5, 0xFF, 0xFF, 0xFF, 0xFF, 0xFF, 0xFF, 0xFF, 0xFF, 0x01]

/-- The iterator is back at the header whenever it has skipped the field. -/
theorem nextFieldIndex_lengthLeadingBack (fuel : Nat) (d : Deserializer) (m : Message)
    (hit : d.it = .fromView lengthLeadingBack) (hstate : d.state = [11]) :
    (nextFieldIndex nullTerminated emptySchema fuel (.named 0) d m).2.2 = .outOfFuel := by
  induction fuel generalizing d m with
  | zero => rfl
  | succ fuel ih =>
    have hstep := nextFieldIndex_step nullTerminated emptySchema fuel (.named 0) d m
    generalize nextFieldIndex nullTerminated emptySchema (fuel + 1) (.named 0) d m = r at hstep ⊢
    have hdecode : decodeHeader nullTerminated d.it =
        (⟨lengthLeadingBack, 1⟩, some (1, .lengthDelimited)) := by rw [hit]; decide
    have hskip : skipPayload nullTerminated .lengthDelimited ⟨lengthLeadingBack, 1⟩ =
        some (.fromView lengthLeadingBack) := by decide
    cases hstep with
    | ended h => exact absurd ⟨by rw [hit]; decide, by rw [hit, hstate]; decide⟩ h
    | skipped it it' n w m' h hheader hindex hskip' =>
      rw [hdecode] at hheader
      cases hheader
      rw [hskip] at hskip'
      cases hskip'
      exact ih _ m' rfl hstate
    | stuck it n w => rfl
    | badHeader it h hheader => simp [hdecode] at hheader
    | overrun it it' n w h hheader hindex hskip' hvalid =>
      rw [hdecode] at hheader
      cases hheader
      rw [hskip] at hskip'
      cases hskip'
      exact absurd hvalid (by decide)
    | backwards it it' n w h hheader hindex hskip' hvalid hback =>
      rw [hdecode] at hheader
      cases hheader
      rw [hskip] at hskip'
      cases hskip'
      rw [hit] at hback
      exact absurd hback (by decide)
    | noField it n w i h hheader hindex => simp [emptySchema, Schema.propertyOrdering] at hindex
    | known it n w i f h hheader hindex => simp [emptySchema, Schema.propertyOrdering] at hindex

/-- The decoder goes over this one field for ever. -/
theorem not_terminates_lengthLeadingBack :
    ¬Terminates nullTerminated emptySchema lengthLeadingBack
        (Serializer.deserialize nullTerminated emptySchema (lengthLeadingBack.length + 1) .initial
          (.named 0) lengthLeadingBack) ∧
      ∀ fuel, (Serializer.deserialize nullTerminated emptySchema fuel .initial (.named 0)
        lengthLeadingBack).2.2 = .outOfFuel := by
  have hforever : ∀ fuel, (Serializer.deserialize nullTerminated emptySchema fuel .initial
      (.named 0) lengthLeadingBack).2.2 = .outOfFuel := by
    intro fuel
    have hsize : ¬lengthLeadingBack.length > Serializer.initial.effectiveMaximumInputSize := by
      decide
    have hloop : (deserializeMessage (format nullTerminated emptySchema) emptySchema fuel (.named 0)
        (Serializer.started Serializer.initial.deserializer lengthLeadingBack)
        (emptySchema.defaultMessage (.named 0))).2.2 = .outOfFuel := by
      cases fuel with
      | zero => rfl
      | succ fuel =>
        have hnext := nextFieldIndex_lengthLeadingBack (fuel + 1)
          (Serializer.started Serializer.initial.deserializer lengthLeadingBack)
          (emptySchema.defaultMessage (.named 0)) rfl rfl
        rw [deserializeMessage, deserializeLoop_succ]
        simp only [format]
        generalize nextFieldIndex nullTerminated emptySchema (fuel + 1) _ _ _ = r at hnext ⊢
        obtain ⟨d, m, next⟩ := r
        simp only at hnext
        subst hnext
        rfl
    simp only [Serializer.deserialize, if_neg hsize]
    generalize deserializeMessage _ _ _ _ _ _ = r at hloop ⊢
    obtain ⟨d, m, outcome⟩ := r
    simp only at hloop
    subst hloop
    rfl
  exact ⟨fun h => h.returns (hforever _), hforever⟩

end QtGrpc.Protobuf.Binary
