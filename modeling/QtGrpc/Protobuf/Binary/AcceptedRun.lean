import QtGrpc.Protobuf.Binary.Acceptance

/-!
# The run on an accepted input

What each reader consumed if it succeeded, and from that, what the decoder consumed if it
reported no error while every field it visited was regular.
-/

namespace QtGrpc.Protobuf.Binary

variable {env : Environment} {S : Schema} {data : Bytes}

/-- A position up to the end is valid. -/
theorem isValid_at {p : Nat} (hp : p ≤ data.length) : Iterator.isValid ⟨data, p⟩ := by
  simpa [Iterator.isValid] using hp

/-- The bytes left there are those up to the end. -/
theorem bytesLeft_at {p : Nat} (hp : p ≤ data.length) :
    Iterator.bytesLeft ⟨data, p⟩ = data.length - p := by
  have := Iterator.bytesLeft_of_isValid (isValid_at hp)
  simp only at this
  omega

/-- A reader ends within the view. -/
theorem Reads.exists_position {p : Nat} {it : Iterator} (hp : p ≤ data.length)
    (h : Reads ⟨data, p⟩ it) : ∃ q : Nat, it = ⟨data, q⟩ ∧ q ≤ data.length := by
  obtain ⟨n, hn, rfl⟩ := h
  rw [bytesLeft_at hp] at hn
  refine ⟨p + n, ?_, by omega⟩
  simp [Iterator.advance, isValid_at hp]

/-- A varint that was read lies in the view. -/
theorem exists_varintAt {p : Nat} {it : Iterator} {value : BitVec 64} (hp : p ≤ data.length)
    (h : deserializeVarintCommon env ⟨data, p⟩ = (it, some value)) :
    ∃ q : Nat, it = ⟨data, q⟩ ∧ q ≤ data.length ∧ VarintAt env data p q value := by
  have hread := deserializeVarintCommon_reads env ⟨data, p⟩
  rw [h] at hread
  obtain ⟨q, rfl, hq⟩ := hread.exists_position hp
  exact ⟨q, rfl, hq, h⟩

/-- So does a header. -/
theorem exists_headerAt {p n : Nat} {w : WireType} {it : Iterator} (hp : p ≤ data.length)
    (h : decodeHeader env ⟨data, p⟩ = (it, some (n, w))) :
    ∃ q : Nat, it = ⟨data, q⟩ ∧ q ≤ data.length ∧ HeaderAt env data p q n w := by
  have hread := decodeHeader_reads env ⟨data, p⟩
  rw [h] at hread
  obtain ⟨q, rfl, hq⟩ := hread.exists_position hp
  exact ⟨q, rfl, hq, h⟩

/-- Moving on from a position adds to it. -/
theorem advance_at {p n : Nat} (hp : p ≤ data.length) :
    Iterator.advance ⟨data, p⟩ n = ⟨data, (p + n : Nat)⟩ := by
  simp [Iterator.advance, isValid_at hp]

/-- An integer of fixed width lies within the view. -/
theorem deserializeFixed_payload {p size : Nat} {it : Iterator} {bytes : Bytes}
    (hp : p ≤ data.length) (h : deserializeFixed size ⟨data, p⟩ = (it, some bytes)) :
    it = ⟨data, (p + size : Nat)⟩ ∧ p + size ≤ data.length := by
  unfold deserializeFixed at h
  rw [bytesLeft_at hp] at h
  split at h
  · simp at h
  · rw [advance_at hp] at h
    simp only [Prod.mk.injEq] at h
    exact ⟨h.1.symm, by omega⟩

/-- So does a payload behind its length. -/
theorem deserializeLengthDelimited_payload {p : Nat} {it : Iterator} {bytes : Bytes}
    (hp : p ≤ data.length) (h : deserializeLengthDelimited env ⟨data, p⟩ = (it, some bytes)) :
    ∃ q : Nat, it = ⟨data, q⟩ ∧ q ≤ data.length ∧ Payload env data .lengthDelimited p q := by
  unfold deserializeLengthDelimited at h
  split at h
  · split at h
    · simp at h
    · rename_i it' length hvarint
      obtain ⟨q, rfl, hq, hat⟩ := exists_varintAt hp hvarint
      rw [bytesLeft_at hq, advance_at hq] at h
      split at h
      · rename_i hlength
        simp only [Prod.mk.injEq] at h
        exact ⟨q + length.toNat, h.1.symm, by omega, .lengthDelimited hat (by omega)⟩
      · simp at h
  · simp at h

/-- A value that was read is a payload of the wire type of its scalar type. -/
theorem deserializeBasic_payload {k : ScalarKind} {p : Nat} {it : Iterator} {v : k.Carrier}
    (hp : p ≤ data.length) (h : deserializeBasic env k ⟨data, p⟩ = (it, some v)) :
    ∃ q : Nat, it = ⟨data, q⟩ ∧ q ≤ data.length ∧ Payload env data k.wireType p q := by
  unfold deserializeBasic at h
  split at h
  case h_1 hk =>
    rcases hread : deserializeVarintCommon env ⟨data, p⟩ with ⟨it', _ | value⟩
    · simp [hread] at h
    · obtain ⟨q, rfl, hq, hat⟩ := exists_varintAt hp hread
      rw [hread] at h
      simp only [Prod.map_apply, id, Prod.mk.injEq] at h
      exact ⟨q, h.1.symm, hq, hk ▸ .varint hat⟩
  case h_2 hk =>
    rcases hread : deserializeFixed 4 ⟨data, p⟩ with ⟨it', _ | bytes⟩
    · simp [hread] at h
    · obtain ⟨rfl, hq⟩ := deserializeFixed_payload hp hread
      rw [hread] at h
      simp only [Prod.map_apply, id, Prod.mk.injEq] at h
      exact ⟨p + 4, h.1.symm, hq, hk ▸ .fixed32 hq⟩
  case h_3 hk =>
    rcases hread : deserializeFixed 8 ⟨data, p⟩ with ⟨it', _ | bytes⟩
    · simp [hread] at h
    · obtain ⟨rfl, hq⟩ := deserializeFixed_payload hp hread
      rw [hread] at h
      simp only [Prod.map_apply, id, Prod.mk.injEq] at h
      exact ⟨p + 8, h.1.symm, hq, hk ▸ .fixed64 hq⟩
  case h_4 hk =>
    rcases hread : deserializeLengthDelimited env ⟨data, p⟩ with ⟨it', _ | bytes⟩
    · simp [hread] at h
    · obtain ⟨q, rfl, hq, hpayload⟩ := deserializeLengthDelimited_payload hp hread
      rw [hread] at h
      simp only [Prod.map_apply, id, Prod.mk.injEq] at h
      exact ⟨q, h.1.symm, hq, hk ▸ hpayload⟩

/-- The loop over a packed list ends where the list was declared to end. -/
theorem listLoop_elements {k : ScalarKind} {lastVarint : Int} {n p : Nat} {it : Iterator}
    {out vs : List k.Carrier} (hp : p ≤ data.length)
    (h : listLoop env k lastVarint n ⟨data, p⟩ out = (it, some vs)) :
    ∃ q : Nat, it = ⟨data, q⟩ ∧ (q : Int) = lastVarint ∧ Elements env data k.wireType p q := by
  induction n generalizing p out with
  | zero =>
    simp only [listLoop] at h
    split at h
    · simp only [Prod.mk.injEq] at h
      exact ⟨p, h.1.symm, by assumption, .nil p⟩
    · simp at h
  | succ n ih =>
    simp only [listLoop] at h
    split at h
    · simp only [Prod.mk.injEq] at h
      exact ⟨p, h.1.symm, by assumption, .nil p⟩
    · split at h
      · simp at h
      · rename_i it' v hbasic
        obtain ⟨q, rfl, hq, hpayload⟩ := deserializeBasic_payload hp hbasic
        obtain ⟨r, hr, hlast, helements⟩ := ih hq h
        exact ⟨r, hr, hlast, .cons hpayload helements⟩

/-- A packed list that was read fills its declared length. -/
theorem deserializeList_elements {k : ScalarKind} {p : Nat} {it : Iterator}
    {vs : List k.Carrier} (hp : p ≤ data.length)
    (h : deserializeList env k ⟨data, p⟩ = (it, some vs)) :
    ∃ q length, VarintAt env data p q length ∧
      Elements env data k.wireType q (q + length.toNat) ∧ it = ⟨data, (q + length.toNat : Nat)⟩ ∧
      q + length.toNat ≤ data.length := by
  unfold deserializeList at h
  split at h
  · simp at h
  · rename_i it' count hvarint
    obtain ⟨q, rfl, hq, hat⟩ := exists_varintAt hp hvarint
    simp only [advance_at hq] at h
    split at h
    · simp at h
    · split at h
      · rename_i hvalid
        have hend := (Iterator.isValid_iff _).mp hvalid
        obtain ⟨r, rfl, hr, helements⟩ := listLoop_elements hq h
        have hr' : r = q + count.toNat := by exact_mod_cast hr
        subst hr'
        simp only at hend
        exact ⟨q, count, hat, helements, rfl, by omega⟩
      · simp at h

/-- A varint that is skipped within the view is the one that would be read. -/
theorem varintLoop_of_skipVarintLoop {bytes : Bytes} {n : Nat}
    (h : skipVarintLoop env bytes = some n) (hn : n ≤ bytes.length) (k : Nat)
    (value : BitVec 64) :
    (varintLoop env k value bytes).1 = n ∧ (varintLoop env k value bytes).2 ≠ none := by
  induction bytes generalizing n k value with
  | nil =>
    have := skipVarintLoop_pos env h
    simp at hn
    omega
  | cons byte rest ih =>
    simp only [skipVarintLoop] at h
    split at h
    · rename_i hcontinues
      simp only [Option.map_eq_some_iff] at h
      obtain ⟨n', h', rfl⟩ := h
      simp only [varintLoop, hcontinues, if_true]
      simpa using ih h' (by simpa using hn) (k + 7) (value + shiftByte env byte k)
    · rename_i hcontinues
      simp only [Option.some.injEq] at h
      simp [varintLoop, hcontinues, ← h]

/-- A skipped payload that ends within the view has the extent of its wire type, if no length
leads back. -/
theorem skipPayload_payload {w : WireType} {p : Nat} {it : Iterator} (hp : p ≤ data.length)
    (h : skipPayload env w ⟨data, p⟩ = some it) (hvalid : it.isValid)
    (hlength : w = .lengthDelimited → ∀ it length,
      deserializeVarintCommon env ⟨data, p⟩ = (it, some length) → length.toNat < 2 ^ 63) :
    ∃ q : Nat, it = ⟨data, q⟩ ∧ q ≤ data.length ∧ Payload env data w p q := by
  have hbounds := (Iterator.isValid_iff it).mp hvalid
  rw [skipPayload_container env h] at hbounds
  simp only at hbounds
  cases w with
  | varint =>
    simp only [skipPayload, skipVarint, Option.map_eq_some_iff] at h
    obtain ⟨n, hloop, rfl⟩ := h
    rw [advance_at hp] at hbounds ⊢
    have hrest : (Iterator.rest ⟨data, p⟩).length = data.length - p := bytesLeft_at hp
    obtain ⟨hcount, hvalue⟩ := varintLoop_of_skipVarintLoop hloop
      (by simp only at hbounds; omega) 0 0
    obtain ⟨value, hvalue⟩ := Option.ne_none_iff_exists'.mp hvalue
    refine ⟨p + n, rfl, by simp only at hbounds; omega, @Payload.varint _ _ _ _ value ?_⟩
    simp only [VarintAt, deserializeVarintCommon]
    rw [hcount, hvalue, advance_at hp]
  | fixed32 =>
    simp only [skipPayload, Option.some.injEq] at h
    have hadvance := advance_at (n := 4) hp
    rw [← h] at hbounds ⊢
    rw [show ((4 : Int)) = ((4 : Nat) : Int) from rfl, hadvance] at hbounds ⊢
    simp only at hbounds
    exact ⟨p + 4, rfl, by omega, .fixed32 (by omega)⟩
  | fixed64 =>
    simp only [skipPayload, Option.some.injEq] at h
    have hadvance := advance_at (n := 8) hp
    rw [← h] at hbounds ⊢
    rw [show ((8 : Int)) = ((8 : Nat) : Int) from rfl, hadvance] at hbounds ⊢
    simp only at hbounds
    exact ⟨p + 8, rfl, by omega, .fixed64 (by omega)⟩
  | lengthDelimited =>
    simp only [skipPayload, Option.some.injEq, skipLengthDelimited] at h
    split at h
    · rename_i it' hvarint
      have hread := deserializeVarintCommon_reads env ⟨data, p⟩
      rw [hvarint] at hread
      obtain ⟨q, rfl, hq⟩ := hread.exists_position hp
      have hleft := bytesLeft_at hq
      rw [← h, Iterator.position_advance (isValid_at hq), hleft] at hbounds
      simp only at hbounds
      omega
    · rename_i it' length hvarint
      have hsmall := hlength rfl _ _ hvarint
      obtain ⟨q, rfl, hq, hat⟩ := exists_varintAt hp hvarint
      have hcount : length.toInt = (length.toNat : Int) := by
        rw [BitVec.toInt_eq_toNat_cond, if_pos (by omega)]
      rw [hcount, advance_at hq] at h
      rw [← h] at hbounds
      simp only at hbounds
      exact ⟨q + length.toNat, h.symm, by omega, .lengthDelimited hat (by omega)⟩

/-- The decoder stands at a position of the view, with the ends of the open frames. -/
structure StandsAt (data : Bytes) (p : Nat) (frames : List Int) (d : Deserializer) : Prop where
  it : d.it = ⟨data, p⟩
  bound : p ≤ data.length
  state : d.state = frames

/-- Once an error is reported it stays, and the records only grow. -/
def Extends (d d' : Deserializer) : Prop :=
  (d.hasError → d'.hasError) ∧ ∃ new, d'.visits = d.visits ++ new

/-- Nothing happens. -/
theorem Extends.refl (d : Deserializer) : Extends d d := ⟨id, [], by simp⟩

/-- One step after the other. -/
theorem Extends.trans {d₁ d₂ d₃ : Deserializer} (h : Extends d₁ d₂) (h' : Extends d₂ d₃) :
    Extends d₁ d₃ := by
  obtain ⟨herror, new, hv⟩ := h
  obtain ⟨herror', new', hv'⟩ := h'
  exact ⟨herror' ∘ herror, new ++ new', by simp [hv', hv]⟩

/-- An error is reported. -/
theorem Extends.setError (d : Deserializer) (error : SerializerError) (text : String)
    (h : error ≠ .none) : Extends d (d.setError error text) :=
  ⟨fun _ => by simpa [Deserializer.hasError, Deserializer.setError] using h, [], by simp⟩

/-- The records of a run all of whose visits are regular. -/
def AllRegular (env : Environment) (S : Schema) (d : Deserializer) : Prop :=
  ∀ v ∈ d.visits, v.Regular env S

/-- Where all records are regular in the end, they were so before. -/
theorem Extends.allRegular {d d' : Deserializer} (h : Extends d d')
    (hall : AllRegular env S d') : AllRegular env S d := by
  obtain ⟨-, new, hv⟩ := h
  intro v hmem
  exact hall v (by rw [hv]; exact List.mem_append_left _ hmem)

/-- Where no error is reported in the end, none was before. -/
theorem Extends.noError {d d' : Deserializer} (h : Extends d d') (herror : ¬d'.hasError) :
    ¬d.hasError := fun h' => herror (h.1 h')

section

variable (env S)

/-- The reading of a scalar field takes no error or record back. -/
theorem deserializeScalarField_extends (f : FieldInfo) (d : Deserializer) (v : Value) :
    Extends d (deserializeScalarField env S f d v).1 := by
  refine ⟨?_, [], by simp [(deserializeScalarField_consumes env S f d v).visits]⟩
  unfold deserializeScalarField
  simp only
  split
  · exact id
  · split
    · intro
      simp [Deserializer.hasError, Deserializer.setError]
    · split
      · exact id
      · intro
        simp [Deserializer.hasError, Deserializer.setError,
          Deserializer.setUnexpectedEndOfStreamError]

/-- Nor does that of an enum field. -/
theorem deserializeEnum_extends (f : FieldInfo) (d : Deserializer) (v : Value) :
    Extends d (deserializeEnum env f d v).1 := by
  refine ⟨?_, [], by simp [(deserializeEnum_consumes env f d v).visits]⟩
  unfold deserializeEnum
  split
  · split
    · simp only
      split <;> exact id
    · exact id
  · split <;> exact id

/-- Nor does entering a field. -/
theorem enterField_extends (f : FieldInfo) (i : Nat) (d : Deserializer) :
    Extends d (enterField env f i d).1 := by
  refine ⟨?_, [], by simp [(enterField_consumes env f i d).2.1]⟩
  unfold enterField
  split
  · split
    · intro
      simp [Deserializer.hasError, Deserializer.setError,
        Deserializer.setUnexpectedEndOfStreamError]
    · simp only
      split
      · intro
        simp [Deserializer.hasError, Deserializer.setError,
          Deserializer.setUnexpectedEndOfStreamError]
      · exact id
  · exact id

/-- Nor does `nextFieldIndex`. -/
theorem nextFieldIndex_extends (fuel : Nat) (t : MessageType) (d : Deserializer) (m : Message) :
    Extends d (nextFieldIndex env S fuel t d m).1 := by
  induction fuel generalizing d m with
  | zero => exact .refl d
  | succ fuel ih =>
    have hstep := nextFieldIndex_step env S fuel t d m
    generalize nextFieldIndex env S (fuel + 1) t d m = r at hstep ⊢
    have hvisit : ∀ it it' n w, Extends d { d.visit t it n w with it := it' } :=
      fun it it' n w => ⟨id, _, rfl⟩
    cases hstep with
    | ended h =>
      unfold Deserializer.leaveFrame
      split
      · exact .refl d
      · exact .setError d .unexpectedEndOfStream "" (by simp)
    | badHeader it => exact .setError { d with it } .invalidHeader "" (by simp)
    | stuck it n w => exact hvisit it it n w
    | overrun it it' n w => exact (hvisit it it' n w).trans (.setError _ .unexpectedEndOfStream "" (by simp))
    | backwards it it' n w => exact hvisit it it' n w
    | skipped it it' n w m' => exact (hvisit it it' n w).trans (ih _ m')
    | noField it n w => exact hvisit it it n w
    | known it n w i f => exact (hvisit it it n w).trans (enterField_extends env f i _)

/-- Nothing the binary format does takes an error or a record back. -/
theorem format_extends : (format env S).Within Extends where
  refl := .refl
  trans := .trans
  nextFieldIndex := nextFieldIndex_extends env S
  deserializeEnum := deserializeEnum_extends env
  deserializeScalarField := deserializeScalarField_extends env S
  setError d error text h := .setError d error text h
  interceptMessageField := by simp [format]

end

/-- A decoder with an error has one. -/
theorem hasError_setError (d : Deserializer) {error : SerializerError} (text : String)
    (h : error ≠ .none) : (d.setError error text).hasError := by
  simpa [Deserializer.hasError, Deserializer.setError] using h

/-- Where `nextFieldIndex` leaves the decoder if it entered a known field: behind the header, or
in the frame of a message behind the length of its payload. -/
inductive Entered (env : Environment) (data : Bytes) (f : FieldInfo) (h : Nat) (w : WireType)
    (frames : List Int) (d : Deserializer) : Prop where
  | scalar (hf : f.type.isMessage = false) (hd : StandsAt data h frames d) (hw : d.wireType = w)
  | message (hf : f.type.isMessage) {b : Nat} {length : BitVec 64}
      (hlength : VarintAt env data h b length) (hbound : b + length.toNat ≤ data.length)
      (hd : StandsAt data b ((b + length.toNat : Nat) :: frames) d)

/-- Without an error a known field was entered, behind its header or the length of its message. -/
theorem enterField_entered {f : FieldInfo} (hf : f.presenceFits) (i : Nat) {d : Deserializer}
    {h : Nat} {frames : List Int} (hd : StandsAt data h frames d)
    (herror : ¬(enterField env f i d).1.hasError) :
    (enterField env f i d).2 = .field i ∧
      Entered env data f h d.wireType frames (enterField env f i d).1 := by
  unfold enterField at herror ⊢
  rw [FieldInfo.fieldFlags_isMessage hf] at herror ⊢
  split
  case isFalse hmessage =>
    exact ⟨rfl, .scalar (by simpa using hmessage) hd rfl⟩
  case isTrue hmessage =>
    rw [if_pos hmessage] at herror
    rw [hd.it] at herror ⊢
    split at herror
    · exact absurd (hasError_setError _ _ (by simp)) herror
    · rename_i it length hvarint
      obtain ⟨b, rfl, hb, hat⟩ := exists_varintAt hd.bound hvarint
      simp only [isValid_at hb, bytesLeft_at hb] at herror ⊢
      split at herror
      · exact absurd (hasError_setError _ _ (by simp)) herror
      · rename_i hbound
        rw [if_neg hbound]
        simp only [Bool.or_eq_true, decide_eq_true_eq, not_or] at hbound
        refine ⟨rfl, .message hmessage hat (by omega) ⟨rfl, hb, ?_⟩⟩
        simp [hd.state]

/-- What `nextFieldIndex` consumed if no error was reported: unknown fields up to the end of the
frame, or up to the header of a known field. -/
inductive NextAccepted (env : Environment) (S : Schema) (data : Bytes) (t : MessageType) (p e : Nat)
    (frames : List Int) (visits : List Visit) (d : Deserializer) : NextField → Prop where
  | finished (new : List Visit) (hv : d.visits = visits ++ new)
      (hconsumed : Consumed env S data t p e new) (hd : StandsAt data e frames d) :
      NextAccepted env S data t p e frames visits d .finished
  | field (new : List Visit) (q h n i : Nat) (w : WireType) (f : FieldInfo)
      (hv : d.visits = visits ++ (new ++ [⟨t, ⟨data, q⟩, ⟨data, h⟩, n, w⟩]))
      (hconsumed : Consumed env S data t p q new) (header : HeaderAt env data q h n w)
      (hindex : (S.propertyOrdering t).indexOfFieldNumber n = some i)
      (hfield : (S.propertyOrdering t).fields[i]? = some f)
      (hentered : Entered env data f h w ((e : Int) :: frames) d) :
      NextAccepted env S data t p e frames visits d (.field i)

/-- Without an error `nextFieldIndex` consumed well-formed fields only. -/
theorem nextFieldIndex_accepted (fuel : Nat) (t : MessageType) {p e : Nat} {frames : List Int}
    {d : Deserializer} (m : Message) (hd : StandsAt data p ((e : Int) :: frames) d)
    (herror : ¬(nextFieldIndex env S fuel t d m).1.hasError)
    (hfuel : (nextFieldIndex env S fuel t d m).2.2 ≠ .outOfFuel)
    (hall : AllRegular env S (nextFieldIndex env S fuel t d m).1) :
    NextAccepted env S data t p e frames d.visits (nextFieldIndex env S fuel t d m).1
      (nextFieldIndex env S fuel t d m).2.2 := by
  induction fuel generalizing p d m with
  | zero => exact absurd rfl hfuel
  | succ fuel ih =>
    have hextends := nextFieldIndex_extends env S (fuel + 1) t d m
    have hstep := nextFieldIndex_step env S fuel t d m
    generalize nextFieldIndex env S (fuel + 1) t d m = r at hstep hextends herror hfuel hall ⊢
    -- A skipped field that did not lead back is a payload behind the header.
    have hpayload : ∀ it it' n w, decodeHeader env d.it = (it, some (n, w)) →
        (S.propertyOrdering t).indexOfFieldNumber n = none → skipPayload env w it = some it' →
        it'.isValid → Visit.Regular env S ⟨t, d.it, it, n, w⟩ →
        ∃ h q : Nat, it = ⟨data, h⟩ ∧ it' = ⟨data, q⟩ ∧ q ≤ data.length ∧
          HeaderAt env data p h n w ∧ Payload env data w h q := by
      intro it it' n w hheader hindex hskip hvalid hregular
      rw [hd.it] at hheader
      obtain ⟨h, rfl, hh, hat⟩ := exists_headerAt hd.bound hheader
      obtain ⟨q, rfl, hq, hp⟩ := skipPayload_payload hh hskip hvalid fun hw it length hvarint =>
        hregular.unknown hindex hw it length hvarint
      exact ⟨h, q, rfl, rfl, hq, hat, hp⟩
    cases hstep with
    | ended h =>
      have hposition : p = e := by
        by_contra hne
        refine h ⟨?_, ?_⟩
        · rw [hd.it]
          exact isValid_at hd.bound
        · rw [hd.it, hd.state]
          simp only [List.head?_cons, ne_eq, Option.some.injEq]
          omega
      subst hposition
      refine .finished [] ?_ (.nil t p) ?_
      all_goals unfold Deserializer.leaveFrame
      all_goals rw [if_pos (by rw [hd.it]; exact isValid_at hd.bound)]
      · simp
      · exact ⟨hd.it, hd.bound, by simp [hd.state]⟩
    | badHeader it h hheader => exact absurd (hasError_setError _ _ (by simp)) herror
    | stuck => exact absurd rfl hfuel
    | overrun => exact absurd (hasError_setError _ _ (by simp)) herror
    | backwards it it' n w h hheader hindex hskip hvalid hback =>
      have hregular : Visit.Regular env S ⟨t, d.it, it, n, w⟩ :=
        hall _ (List.mem_append_right _ (List.mem_singleton_self _))
      obtain ⟨h', q, rfl, rfl, -, hat, hp⟩ := hpayload it it' n w hheader hindex hskip hvalid hregular
      have hlt := hat.lt
      have hle := hp.le
      rw [hd.it] at hback
      simp only at hback
      omega
    | skipped it it' n w m' h hheader hindex hskip hvalid hforward hm =>
      have hextends' := nextFieldIndex_extends env S fuel t
        { d.visit t it n w with it := it' } m'
      have hregular : Visit.Regular env S ⟨t, d.it, it, n, w⟩ :=
        hextends'.allRegular hall _ (List.mem_append_right _ (List.mem_singleton_self _))
      obtain ⟨h', q, rfl, rfl, hq, hat, hp⟩ := hpayload it it' n w hheader hindex hskip hvalid hregular
      have hrest := ih m' (d := { d.visit t ⟨data, h'⟩ n w with it := ⟨data, q⟩ })
        ⟨rfl, hq, hd.state⟩ herror hfuel hall
      simp only [Deserializer.visit, hd.it] at hrest ⊢
      generalize nextFieldIndex env S fuel t _ m' = r at hrest ⊢
      obtain ⟨d', m'', next⟩ := r
      simp only at hrest ⊢
      cases hrest with
      | finished new hv hconsumed hd' =>
        exact .finished (⟨t, ⟨data, p⟩, ⟨data, h'⟩, n, w⟩ :: new) (by simp [hv])
          (.unknown hat hindex hp hconsumed) hd'
      | field new q' h'' n' i w' f hv hconsumed header hindex' hfield hentered =>
        exact .field (⟨t, ⟨data, p⟩, ⟨data, h'⟩, n, w⟩ :: new) q' h'' n' i w' f (by simp [hv])
          (.unknown hat hindex hp hconsumed) header hindex' hfield hentered
    | noField it n w i h hheader hindex hfield =>
      unfold MessageDescriptor.indexOfFieldNumber at hindex
      split at hindex
      · have hlt := (List.findIdx?_eq_some_iff_getElem.mp hindex).1
        simp [hlt] at hfield
      · simp at hindex
    | known it n w i f h hheader hindex hfield =>
      rw [hd.it] at hheader
      obtain ⟨h', rfl, hh, hat⟩ := exists_headerAt hd.bound hheader
      have hfits := (S.propertyOrdering t).presence_fits f (List.mem_of_getElem? hfield)
      obtain ⟨hnext, hentered⟩ := enterField_entered hfits i
        (d := d.visit t ⟨data, h'⟩ n w) ⟨rfl, hh, hd.state⟩ herror
      have hv := (enterField_consumes env f i (d.visit t ⟨data, h'⟩ n w)).2.1
      simp only [hnext]
      refine .field [] p h' n i w f ?_ (.nil t p) hat hindex hfield hentered
      rw [hv]
      simp [Deserializer.visit, hd.it]

/-- An enumeration field that was read had a payload of numbers. -/
theorem deserializeEnum_content {f : FieldInfo} {d : Deserializer} {v : Value} {h : Nat}
    {frames : List Int} (hf : f.type.isEnum) (hd : StandsAt data h frames d)
    (henum : ∀ e, f.type = .enum e → d.wireType = .varint)
    (hok : (deserializeEnum env f d v).2.2 = true) :
    ∃ q, StandsAt data q frames (deserializeEnum env f d v).1 ∧
      Content env data f.type d.wireType h q := by
  unfold deserializeEnum at hok ⊢
  rw [FieldInfo.fieldFlags_repeated, hd.it] at hok ⊢
  cases htype : f.type with
  | enum e =>
    simp only [htype, PropertyType.isRepeated, Bool.false_eq_true, if_false] at hok ⊢
    rcases hread : deserializeBasic env .int64 ⟨data, h⟩ with ⟨it, _ | value⟩
    · simp [hread] at hok
    · obtain ⟨q, rfl, hq, hpayload⟩ := deserializeBasic_payload hd.bound hread
      rw [henum e htype]
      exact ⟨q, ⟨rfl, hq, hd.state⟩, .enumerator hpayload⟩
  | enumList e =>
    simp only [htype, PropertyType.isRepeated, if_true] at hok ⊢
    split at hok
    · rename_i vs _
      cases hw : d.wireType with
      | varint =>
        simp only [hw, deserializeNonPackedList] at hok ⊢
        rcases hread : deserializeBasic env .int64 ⟨data, h⟩ with ⟨it, _ | value⟩
        · simp [hread] at hok
        · obtain ⟨q, rfl, hq, hpayload⟩ := deserializeBasic_payload hd.bound hread
          exact ⟨q, ⟨rfl, hq, hd.state⟩, .enumElement hpayload⟩
      | lengthDelimited =>
        simp only [hw] at hok ⊢
        rcases hread : deserializeList env .int64 ⟨data, h⟩ with ⟨it, _ | values⟩
        · simp [hread] at hok
        · obtain ⟨q, length, hlength, helements, rfl, hbound⟩ :=
            deserializeList_elements hd.bound hread
          exact ⟨q + length.toNat, ⟨rfl, hbound, hd.state⟩, .enumPacked hlength helements⟩
      | fixed32 | fixed64 => simp [hw] at hok
    · simp at hok
  | _ => simp [htype, PropertyType.isEnum] at hf

/-- A scalar field that was read had a payload of the wire type of its handler. -/
theorem integratedDeserializer_content {type : PropertyType} {nonPacked : Bool} {h : Nat}
    {w : WireType} {it : Iterator} {v v' : Value} (hh : h ≤ data.length)
    (hwire : integratedWireType type nonPacked = some w)
    (hread : integratedDeserializer env type nonPacked ⟨data, h⟩ v = (it, some v')) :
    v'.isNull = false ∧ ∃ q : Nat, it = ⟨data, q⟩ ∧ q ≤ data.length ∧
      Content env data type w h q := by
  unfold integratedDeserializer at hread
  split at hread
  · rename_i k
    have hw : k.wireType = w := by
      cases nonPacked <;> simp_all [integratedWireType]
    rcases hbasic : deserializeBasic env k ⟨data, h⟩ with ⟨it', _ | value⟩
    · simp [hbasic] at hread
    · obtain ⟨q, rfl, hq, hpayload⟩ := deserializeBasic_payload hh hbasic
      simp only [hbasic, Prod.map_apply, id, Option.map_some, Prod.mk.injEq, Option.some.injEq]
        at hread
      exact ⟨by simp [← hread.2, Value.isNull], q, hread.1.symm, hq, hw ▸ .scalar hpayload⟩
  · rename_i k k' vs
    split at hread
    · split at hread
      · rename_i hk hpacked
        subst hk
        have hw : k'.wireType = w := by
          cases nonPacked with
          | true =>
            simp only [integratedWireType, if_true] at hwire
            split at hwire <;> simp_all
          | false => cases k' <;> simp_all [integratedWireType, ScalarKind.isLengthDelimited,
              ScalarKind.wireType]
        simp only [deserializeNonPackedList] at hread
        rcases hbasic : deserializeBasic env k' ⟨data, h⟩ with ⟨it', _ | value⟩
        · simp [hbasic] at hread
        · obtain ⟨q, rfl, hq, hpayload⟩ := deserializeBasic_payload hh hbasic
          simp only [hbasic, Prod.map_apply, id, Option.map_some, Prod.mk.injEq,
            Option.some.injEq] at hread
          exact ⟨by simp [← hread.2, Value.isNull], q, hread.1.symm, hq, hw ▸ .element hpayload⟩
      · rename_i hk hpacked
        have hw : w = .lengthDelimited := by
          cases nonPacked <;> simp_all [integratedWireType]
        rcases hlist : deserializeList env k ⟨data, h⟩ with ⟨it', _ | values⟩
        · simp [hlist] at hread
        · obtain ⟨q, length, hlength, helements, rfl, hbound⟩ := deserializeList_elements hh hlist
          simp only [hlist, Prod.map_apply, id, Option.map_some, Prod.mk.injEq,
            Option.some.injEq] at hread
          exact ⟨by simp [← hread.2, Value.isNull], q + length.toNat, hread.1.symm, hbound,
            hw ▸ .packed hlength helements⟩
    · simp at hread
  · simp at hread

/-- A scalar field that was read without an error had a payload of its kind. -/
theorem deserializeScalarField_content {f : FieldInfo} {d : Deserializer} {v : Value} {h : Nat}
    {frames : List Int} (hd : StandsAt data h frames d)
    (hok : (deserializeScalarField env S f d v).2.2 = true)
    (herror : ¬(deserializeScalarField env S f d v).1.hasError) :
    (deserializeScalarField env S f d v).2.1.isNull = false ∧
      ∃ q, StandsAt data q frames (deserializeScalarField env S f d v).1 ∧
        Content env data f.type d.wireType h q := by
  unfold deserializeScalarField at hok herror ⊢
  simp only at hok herror ⊢
  cases hwire : integratedWireType f.type
      (d.wireType != .lengthDelimited && f.fieldFlags.repeated) with
  | none => simp [hwire] at hok
  | some w =>
    simp only [hwire] at herror ⊢
    by_cases hw : w ≠ d.wireType
    · rw [if_pos hw] at herror
      exact absurd (hasError_setError _ _ (by simp)) herror
    · rw [if_neg hw, hd.it] at herror ⊢
      split at herror
      · rename_i it v' hread
        obtain ⟨hnull, q, rfl, hq, hcontent⟩ := integratedDeserializer_content hd.bound hwire hread
        rw [← not_not.mp hw]
        exact ⟨hnull, q, ⟨rfl, hq, hd.state⟩, hcontent⟩
      · exact absurd (hasError_setError _ _ (by simp)) herror

/-- What decoding a message consumed if no error was reported: its whole frame. -/
def NestedAccepted (env : Environment) (S : Schema) (data : Bytes)
    (nested : MessageType → Deserializer → Message → Deserializer × Message × Outcome) : Prop :=
  ∀ (t : MessageType) (d : Deserializer) (m : Message) (p e : Nat) (frames : List Int),
    StandsAt data p ((e : Int) :: frames) d → ¬(nested t d m).1.hasError →
    (nested t d m).2.2 ≠ .outOfFuel → AllRegular env S (nested t d m).1 →
    (nested t d m).2.2 = .returned true ∧ StandsAt data e frames (nested t d m).1 ∧
      ∃ inner, (nested t d m).1.visits = d.visits ++ inner ∧ Consumed env S data t p e inner

/-- What a known field consumed if no error was reported. -/
inductive FieldAccepted (env : Environment) (S : Schema) (data : Bytes) (f : FieldInfo) (h q : Nat)
    (w : WireType) (visits : List Visit) (d : Deserializer) : Prop where
  | scalar (hv : d.visits = visits) (content : Content env data f.type w h q)
  | message {t : MessageType} {b : Nat} {length : BitVec 64} {inner : List Visit}
      (hv : d.visits = visits ++ inner) (hmessage : f.type.isMessage)
      (htype : contentType S f.type = some t)
      (hlength : VarintAt env data h b length) (hq : q = b + length.toNat)
      (hconsumed : Consumed env S data t b q inner)

/-- A known field that was read without an error was consumed as such. -/
theorem fieldStep_accepted
    {nested : MessageType → Deserializer → Message → Deserializer × Message × Outcome}
    (hnested : NestedAccepted env S data nested) {f : FieldInfo} {d d' : Deserializer}
    {stop : Option Outcome} (hstep : FieldStep (format env S) S nested f d d' stop)
    {h : Nat} {w : WireType} {frames : List Int} (hentered : Entered env data f h w frames d)
    (henum : ∀ e, f.type = .enum e → w = .varint) (herror : ¬d'.hasError)
    (hstop : stop ≠ some .outOfFuel) (hall : AllRegular env S d') :
    stop = none ∧ ∃ q, StandsAt data q frames d' ∧ FieldAccepted env S data f h q w d.visits d' := by
  have hmessage : ∀ {t : MessageType}, f.type.nestedType = some t → f.type.isMessage := by
    intro t ht
    cases htype : f.type <;> simp_all [PropertyType.nestedType, PropertyType.isMessage]
  cases hstep with
  | message t m ht =>
    cases hentered with
    | scalar hf => simp [hmessage ht] at hf
    | message hf hlength hbound hd =>
      split at hstop
      · rename_i hreturned
        obtain ⟨-, hd', inner, hv, hconsumed⟩ :=
          hnested t d m _ _ _ hd herror (by simp [hreturned]) hall
        have htype : contentType S f.type = some t := by
          cases htype : f.type <;> simp_all [contentType, PropertyType.nestedType]
        exact ⟨by simp [hreturned], _, hd', .message hv hf htype hlength rfl hconsumed⟩
      · rename_i hreturned
        exact absurd (hnested t d m _ _ _ hd herror (by simpa using hstop) hall).1 hreturned
  | enum v hf hok =>
    cases hentered with
    | message hmessage => cases htype : f.type <;>
        simp_all [PropertyType.isEnum, PropertyType.isMessage]
    | scalar _ hd hw =>
      subst hw
      obtain ⟨q, hd', hcontent⟩ := deserializeEnum_content hf hd henum hok
      exact ⟨rfl, q, hd', .scalar (deserializeEnum_consumes env f d v).visits hcontent⟩
  | enumFailed => exact absurd (hasError_setError _ _ (by simp)) herror
  | scalar v hf hok =>
    cases hentered with
    | message hmessage =>
      rw [show (format env S).deserializeScalarField f d v = (d, v, false) from
        deserializeScalarField_of_isMessage hmessage d v] at hok
      simp at hok
    | scalar _ hd hw =>
      subst hw
      obtain ⟨hnull, q, hd', hcontent⟩ := deserializeScalarField_content hd hok herror
      refine ⟨?_, q, hd', .scalar (deserializeScalarField_consumes env S f d v).visits hcontent⟩
      rw [if_neg]
      simpa [format] using hnull
  | noHandler => exact absurd (hasError_setError _ _ (by simp)) herror
  | handler v handler hf hok hh =>
    have hcustom : f.type.isMessage ∧ contentType S f.type = some handler.proxy := by
      cases htype : f.type <;>
        simp_all [Schema.handlerOf, contentType, PropertyType.isMessage]
    cases hentered with
    | scalar hscalar => simp [hcustom.1] at hscalar
    | message hmessage hlength hbound hd =>
      rw [show (format env S).deserializeScalarField f d v = (d, v, false) from
        deserializeScalarField_of_isMessage hmessage d v] at herror hstop hall ⊢
      have hreturns : (nested handler.proxy d (S.defaultMessage handler.proxy)).2.2 ≠ .outOfFuel := by
        intro hout
        simp [hout] at hstop
      obtain ⟨-, hd', inner, hv, hconsumed⟩ :=
        hnested handler.proxy d (S.defaultMessage handler.proxy) _ _ _ hd herror hreturns hall
      exact ⟨by simp [hreturns], _, hd', .message hv hmessage hcustom.2 hlength rfl hconsumed⟩

/-- Without an error the end of a message consumes nothing. -/
theorem finishStep_accepted {t : MessageType} {d d' : Deserializer} {ok : Bool}
    (h : FinishStep (format env S) S t d d' ok) (herror : ¬d'.hasError) : ok = true ∧ d' = d := by
  cases h with
  | notStored => exact absurd (hasError_setError _ _ (by simp)) herror
  | checked seen =>
    unfold checkRequiredFields at herror ⊢
    split
    · exact ⟨rfl, rfl⟩
    · rename_i henforce
      rw [if_neg henforce] at herror
      simp only at herror ⊢
      split at herror
      · simp
      · exact absurd (hasError_setError _ _ (by simp)) herror

/-- A message decoded without an error was consumed as the fields of its type. -/
theorem deserializeLoop_accepted (fuel : Nat) (t : MessageType) (seen : List Nat) (cache : Cache)
    (d : Deserializer) (m : Message) (p e : Nat) (frames : List Int)
    (hd : StandsAt data p ((e : Int) :: frames) d)
    (herror : ¬(deserializeLoop (format env S) S fuel t seen cache d m).1.hasError)
    (hfuel : (deserializeLoop (format env S) S fuel t seen cache d m).2.2 ≠ .outOfFuel)
    (hall : AllRegular env S (deserializeLoop (format env S) S fuel t seen cache d m).1) :
    (deserializeLoop (format env S) S fuel t seen cache d m).2.2 = .returned true ∧
      StandsAt data e frames (deserializeLoop (format env S) S fuel t seen cache d m).1 ∧
      ∃ new, (deserializeLoop (format env S) S fuel t seen cache d m).1.visits = d.visits ++ new ∧
        Consumed env S data t p e new := by
  induction fuel generalizing t seen cache d m p e frames with
  | zero => exact absurd rfl hfuel
  | succ fuel ih =>
    have hstep := deserializeLoop_step (format env S) S fuel t seen cache d m
    generalize (deserializeLoop (format env S) S (fuel + 1) t seen cache d m).1 = final,
      (deserializeLoop (format env S) S (fuel + 1) t seen cache d m).2.2 = outcome
      at hstep herror hfuel hall ⊢
    have hnested : NestedAccepted env S data (deserializeMessageField (format env S) S fuel) :=
      fun t d m p e frames => ih t [] {} d m p e frames
    -- The header of a known field and its payload, with the nested visits in between.
    have hfield : ∀ (m : Message) (i : Nat) (f : FieldInfo) (d' : Deserializer)
        (stop : Option Outcome), (nextFieldIndex env S (fuel + 1) t d m).2.2 = .field i →
        (S.propertyOrdering t).fields[i]? = some f →
        FieldStep (format env S) S (deserializeMessageField (format env S) S fuel) f
          (nextFieldIndex env S (fuel + 1) t d m).1 d' stop →
        ¬d'.hasError → stop ≠ some .outOfFuel → AllRegular env S d' →
        stop = none ∧ ∃ q new, d'.visits = d.visits ++ new ∧
          Consumed env S data t p q new ∧ StandsAt data q ((e : Int) :: frames) d' := by
      intro m i f d' stop hnext hf hfieldStep herror' hstop hall'
      have hextends := hfieldStep.within (format_extends env S)
        (deserializeMessageField_within (format_extends env S) fuel
          (deserializeLoop_within (format_extends env S) fuel))
      have hall₁ := hextends.allRegular hall'
      have haccepted := nextFieldIndex_accepted (fuel + 1) t m hd (hextends.noError herror')
        (by simp [hnext]) hall₁
      rw [hnext] at haccepted
      cases haccepted with
      | field new q h n _ w f' hv hconsumed header hindex hf' hentered =>
        rw [hf] at hf'
        cases hf'
        have hregular : Visit.Regular env S ⟨t, ⟨data, q⟩, ⟨data, h⟩, n, w⟩ :=
          hall₁ _ (by simp [hv])
        obtain ⟨hnone, q', hd', hfieldAccepted⟩ := fieldStep_accepted hnested hfieldStep hentered
          (fun e he => hregular.enum i f e hindex hf he) herror' hstop hall'
        refine ⟨hnone, q', ?_⟩
        cases hfieldAccepted with
        | scalar hv' content =>
          exact ⟨new ++ [⟨t, ⟨data, q⟩, ⟨data, h⟩, n, w⟩], by rw [hv', hv],
            hconsumed.append (.scalar header hindex hf content (.nil t q')), hd'⟩
        | message hv' hmessage htype hlength hq' hinner =>
          have hw : w = .lengthDelimited := hregular.message i f hindex hf hmessage
          subst hw hq'
          refine ⟨new ++ (⟨t, ⟨data, q⟩, ⟨data, h⟩, n, .lengthDelimited⟩ :: (_ ++ [])),
            by rw [hv', hv]; simp, hconsumed.append
              (.message header hindex hf htype hlength hinner (.nil t _)), hd'⟩
    cases hstep with
    | outOfFuel m hnext => exact absurd rfl hfuel
    | finished m d' ok hnext hfinish =>
      obtain ⟨rfl, rfl⟩ := finishStep_accepted hfinish herror
      have haccepted := nextFieldIndex_accepted (fuel + 1) t m hd herror (by
        rw [show nextFieldIndex env S (fuel + 1) t d m =
          (format env S).nextFieldIndex (fuel + 1) t d m from rfl, hnext]
        simp) hall
      rw [show (nextFieldIndex env S (fuel + 1) t d m).2.2 = .finished from hnext] at haccepted
      cases haccepted with
      | finished new hv hconsumed hd' => exact ⟨rfl, hd', new, hv, hconsumed⟩
    | noField m i hnext hnone =>
      have haccepted := nextFieldIndex_accepted (fuel + 1) t m hd herror (by
        rw [show nextFieldIndex env S (fuel + 1) t d m =
          (format env S).nextFieldIndex (fuel + 1) t d m from rfl, hnext]
        simp) hall
      rw [show (nextFieldIndex env S (fuel + 1) t d m).2.2 = .field i from hnext] at haccepted
      cases haccepted with
      | field new q h n _ w f hv hconsumed header hindex hf =>
        rw [hnone] at hf
        cases hf
    | notStored => exact absurd (hasError_setError _ _ (by simp)) herror
    | stopped m i f d' outcome hnext hf hfieldStep =>
      have hnone := (hfield m i f _ _ hnext hf hfieldStep herror (by simpa using hfuel) hall).1
      cases hnone
    | continued m m' i f d' seen cache hnext hf hfieldStep =>
      have hrest := deserializeLoop_within (S := S) (format_extends env S) fuel t seen cache d' m'
      obtain ⟨-, q, new, hv, hconsumed, hd'⟩ := hfield m i f _ _ hnext hf hfieldStep
        (hrest.noError herror) (by simp) (hrest.allRegular hall)
      obtain ⟨hreturned, hend, new', hv', hconsumed'⟩ :=
        ih t seen cache d' m' q e frames hd' herror hfuel hall
      exact ⟨hreturned, hend, new ++ new', by rw [hv', hv, List.append_assoc],
        hconsumed.append hconsumed'⟩

/-- The decoder consumed its whole input as the fields of a message, and never went back. -/
structure ConsumedEntirely (env : Environment) (S : Schema) (t : MessageType) (data : Bytes)
    (visits : List Visit) : Prop where
  consumed : Consumed env S data t 0 data.length visits
  forward : visits.Pairwise fun v v' => v.fieldBegin.position < v'.fieldBegin.position

/-- A decoder that accepted its input decoded a message without an error. -/
theorem deserialize_accepted {fuel : Nat} {s : Serializer} {t : MessageType}
    (h : (Serializer.deserialize env S fuel s t data).2.2 = .returned true) :
    data.length ≤ maxSerializeMessageSizeLimit ∧
      ∃ d m, deserializeLoop (format env S) S fuel t [] {} (Serializer.started s.deserializer data)
          (S.defaultMessage t) = (d, m) ∧ ¬d.hasError ∧ m.2 ≠ .outOfFuel ∧
        (Serializer.deserialize env S fuel s t data).1.deserializer.visits = d.visits := by
  have hlimit := s.effectiveMaximumInputSize_le
  simp only [Serializer.deserialize, deserializeMessage] at h ⊢
  split at h
  · simp at h
  · rename_i hsize
    simp only [if_neg hsize]
    refine ⟨by omega, ?_⟩
    generalize deserializeLoop (format env S) S fuel t [] {}
      (Serializer.started s.deserializer data) (S.defaultMessage t) = r at h ⊢
    obtain ⟨d, m, outcome⟩ := r
    cases outcome with
    | outOfFuel => simp at h
    | returned ok =>
      refine ⟨d, (m, .returned ok), rfl, ?_, by simp, rfl⟩
      simpa [Deserializer.reset, Deserializer.hasError] using h

/-- An accepted input was consumed as a sequence of well-formed fields exactly if no unknown field
has a length that leads back, and every message, map and singular enumeration field that was
visited has the wire type of its kind. -/
theorem consumedEntirely_iff (env : Environment) (S : Schema) (fuel : Nat) (s : Serializer)
    (t : MessageType) (data : Bytes)
    (haccepted : (Serializer.deserialize env S fuel s t data).2.2 = .returned true) :
    ConsumedEntirely env S t data
        (Serializer.deserialize env S fuel s t data).1.deserializer.visits ↔
      ∀ v ∈ (Serializer.deserialize env S fuel s t data).1.deserializer.visits,
        v.Regular env S := by
  obtain ⟨hsize, d, m, hloop, herror, hfuel, hv⟩ := deserialize_accepted haccepted
  rw [hv]
  constructor
  · intro h
    exact h.consumed.regular (lt_of_le_of_lt hsize (by decide))
  · intro hall
    have hstart : StandsAt data 0 [(data.length : Int)] (Serializer.started s.deserializer data) :=
      ⟨rfl, Nat.zero_le _, rfl⟩
    obtain ⟨-, -, new, hnew, hconsumed⟩ := deserializeLoop_accepted fuel t [] {}
      (Serializer.started s.deserializer data) (S.defaultMessage t) 0 data.length [] hstart
      (by rwa [hloop]) (by rwa [hloop]) (by rwa [hloop])
    rw [hloop] at hnew
    simp only [Serializer.started, Deserializer.reset, Deserializer.setError, List.nil_append]
      at hnew
    rw [hnew]
    exact ⟨hconsumed, hconsumed.pairwise⟩

/-- A message type with a singular enumeration and a sub-message. -/
def taggedSchema : Schema where
  message
    | 0 => ⟨"Tagged", [
        { fieldNumber := 1, jsonName := "kind", type := .enum 0 },
        { fieldNumber := 2, jsonName := "body", type := .message 1 }],
        by decide, by decide, by decide⟩
    | _ => .withoutFields "Empty"
  enumKeys _ := [("None", 0), ("Some", 1)]
  findHandler _ := none
  typeName _ := ""

/-- The fields of the sample are regular when each has the wire type that it is written with. -/
theorem regular_tagged {env : Environment} {v : Visit} (htype : v.messageType = .named 0)
    (h : v.fieldNumber = 1 ∧ v.wireType = .varint ∨
      v.fieldNumber = 2 ∧ v.wireType = .lengthDelimited) : v.Regular env taggedSchema := by
  obtain ⟨messageType, fieldBegin, payload, fieldNumber, wireType⟩ := v
  obtain rfl : messageType = .named 0 := htype
  rcases h with ⟨rfl, rfl⟩ | ⟨rfl, rfl⟩
  · refine ⟨fun hunknown => (by cases hunknown), fun i f hi hf hmessage => ?_, fun _ _ _ _ _ _ => rfl⟩
    obtain rfl : 0 = i := Option.some.inj hi
    cases hf
    cases hmessage
  · refine ⟨fun hunknown => (by cases hunknown), fun _ _ _ _ _ => rfl, fun i f e hi hf henum => ?_⟩
    obtain rfl : 1 = i := Option.some.inj hi
    cases hf
    cases henum

/-- An enumeration and an empty sub-message: the decoder accepts both and consumes them. -/
theorem consumedEntirely_iff_tagged :
    (Serializer.deserialize nullTerminated taggedSchema 8 .initial (.named 0)
        [0x08, 0x01, 0x12, 0x00]).2.2 = .returned true ∧
      ConsumedEntirely nullTerminated taggedSchema (.named 0) [0x08, 0x01, 0x12, 0x00]
        (Serializer.deserialize nullTerminated taggedSchema 8 .initial (.named 0)
          [0x08, 0x01, 0x12, 0x00]).1.deserializer.visits := by
  have hvisits : ∀ v ∈ (Serializer.deserialize nullTerminated taggedSchema 8 .initial (.named 0)
      [0x08, 0x01, 0x12, 0x00]).1.deserializer.visits, v.messageType = .named 0 ∧
        (v.fieldNumber = 1 ∧ v.wireType = .varint ∨
          v.fieldNumber = 2 ∧ v.wireType = .lengthDelimited) := by decide
  refine ⟨by decide, (consumedEntirely_iff _ _ _ _ _ _ (by decide)).mpr fun v hv => ?_⟩
  exact regular_tagged (hvisits v hv).1 (hvisits v hv).2

/-- The decoder accepts the input without consuming it as a sequence of well-formed fields. -/
def Overlooks (env : Environment) (S : Schema) (fuel : Nat) (s : Serializer) (t : MessageType)
    (data : Bytes) : Prop :=
  (Serializer.deserialize env S fuel s t data).2.2 = .returned true ∧
    ¬ConsumedEntirely env S t data
      (Serializer.deserialize env S fuel s t data).1.deserializer.visits

/-- Three such inputs: the length of an unknown field leads back into the length itself, an
enumeration field claims a fixed-width payload but is read as a varint, and so does a message
field that is read with a length. -/
theorem not_consumedEntirely_accepted :
    Overlooks nullTerminated taggedSchema 16 .initial (.named 0)
        [0x1A, 0xFF, 0xFF, 0xFF, 0xFF, 0xFF, 0xFF, 0xFF, 0xFF, 0xFF, 0x1D, 0x00, 0x00, 0x00, 0x00] ∧
      Overlooks nullTerminated taggedSchema 16 .initial (.named 0) [0x0D, 0x05] ∧
      Overlooks nullTerminated taggedSchema 16 .initial (.named 0) [0x15, 0x00] := by
  refine ⟨⟨by decide, fun h => ?_⟩, ⟨by decide, fun h => ?_⟩, ⟨by decide, fun h => ?_⟩⟩
  · have hregular := h.consumed.regular (by decide) _ (List.mem_of_getElem? (i := 0) rfl)
    exact absurd (hregular.unknown rfl rfl ⟨_, 11⟩ (BitVec.allOnes 64) rfl) (by decide)
  · have hregular := h.consumed.regular (by decide) _ (List.mem_of_getElem? (i := 0) rfl)
    exact absurd (hregular.enum 0 _ 0 (by decide) rfl rfl) (by decide)
  · have hregular := h.consumed.regular (by decide) _ (List.mem_of_getElem? (i := 0) rfl)
    exact absurd (hregular.message 1 _ (by decide) rfl rfl) (by decide)

end QtGrpc.Protobuf.Binary
