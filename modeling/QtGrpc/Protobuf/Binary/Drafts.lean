import QtGrpc.Protobuf.Binary.Fitting

/-!
# What fields make of a message

The loop of the decoder without its position: a sequence of complete fields turns a message, and
the property of one field that may not be written yet, into others. This does not depend on where
the fields stand in the input, nor on what follows them.
-/

namespace QtGrpc.Protobuf.Binary

/-- A message, and the property of a field of it that may not be written yet. -/
structure Draft where
  cache : Cache
  message : Message

/-- A field of an unknown number is kept if this is asked for. -/
def keptMessage (keep : Bool) (m : Message) (x : WireField) : Message :=
  if keep then m.storeUnknownEntry x.bytes x.fieldNumber else m

/-- Keeping an unknown field changes no member. -/
@[simp] theorem member_keptMessage (keep : Bool) (m : Message) (x : WireField) :
    (keptMessage keep m x).member = m.member := by
  unfold keptMessage
  split <;> rfl

variable (env : Environment) (S : Schema)

/-- What a sequence of fields makes of a draft of a message. -/
inductive Decodes (keep : Bool) : MessageType → List WireField → Draft → Draft → Prop where
  | nil (t : MessageType) (p : Draft) : Decodes keep t [] p p
  | unknown {t : MessageType} {x : WireField} {xs : List WireField} {p q : Draft}
      (hx : x.Complete env)
      (hindex : (S.propertyOrdering t).indexOfFieldNumber x.fieldNumber = none)
      (rest : Decodes keep t xs ⟨p.cache, keptMessage keep p.message x⟩ q) :
      Decodes keep t (x :: xs) p q
  | plain {t : MessageType} {x : WireField} {xs : List WireField} {p q : Draft} {i : Nat}
      {f : FieldInfo} {c : Cache} {m : Message} {v : Value} (hx : x.Complete env)
      (hindex : (S.propertyOrdering t).indexOfFieldNumber x.fieldNumber = some i)
      (hfield : (S.propertyOrdering t).fields[i]? = some f)
      (hselect : selectProperty S t i f p.cache p.message = (c, m, true))
      (htaken : Taken env x f.type c.propertyValue v)
      (rest : Decodes keep t xs ⟨{ c with propertyValue := v }, m⟩ q) : Decodes keep t (x :: xs) p q
  | nested {t t' : MessageType} {x : WireField} {xs ys : List WireField} {p q r : Draft} {i : Nat}
      {f : FieldInfo} {c c' : Cache} {m start sub : Message} {next : Message → Cache}
      {message : Message → Message} {length : Bytes} (hx : x.Complete env)
      (hindex : (S.propertyOrdering t).indexOfFieldNumber x.fieldNumber = some i)
      (hfield : (S.propertyOrdering t).fields[i]? = some f)
      (hselect : selectProperty S t i f p.cache p.message = (c, m, true))
      (hnests : Nests S i f m c t' start next message)
      (hpayload : x.payload = length ++ ys.flatMap WireField.bytes)
      (hlength : IsVarint env length (BitVec.ofNat 64 (ys.flatMap WireField.bytes).length))
      (hsize : (ys.flatMap WireField.bytes).length ≤ maxByteArraySize)
      (hsub : Decodes keep t' ys ⟨{}, start⟩ r)
      (hstore : storeCachedValue S t' r.cache r.message = (c', sub, true))
      (hrequired : RequiredPresent S t' ys)
      (rest : Decodes keep t xs ⟨next sub, message sub⟩ q) : Decodes keep t (x :: xs) p q

variable {env S} {keep : Bool} {t : MessageType}

namespace Decodes

variable {xs ys : List WireField} {p q r : Draft}

/-- Fields that are decoded one after another compose. -/
theorem append (h : Decodes env S keep t xs p q) (h' : Decodes env S keep t ys q r) :
    Decodes env S keep t (xs ++ ys) p r := by
  induction h with
  | nil => exact h'
  | unknown hx hindex rest ih => exact .unknown hx hindex (ih h')
  | plain hx hindex hfield hselect htaken rest ih =>
    exact .plain hx hindex hfield hselect htaken (ih h')
  | nested hx hindex hfield hselect hnests hpayload hlength hsize hsub hstore hrequired rest _ ih =>
    exact .nested hx hindex hfield hselect hnests hpayload hlength hsize hsub hstore hrequired
      (ih h')

/-- The first field is decoded before the others. -/
theorem of_cons {x : WireField} (h : Decodes env S keep t (x :: xs) p r) :
    ∃ q, Decodes env S keep t [x] p q ∧ Decodes env S keep t xs q r := by
  cases h with
  | unknown hx hindex rest => exact ⟨_, .unknown hx hindex (.nil t _), rest⟩
  | plain hx hindex hfield hselect htaken rest =>
    exact ⟨_, .plain hx hindex hfield hselect htaken (.nil t _), rest⟩
  | nested hx hindex hfield hselect hnests hpayload hlength hsize hsub hstore hrequired rest =>
    exact ⟨_, .nested hx hindex hfield hselect hnests hpayload hlength hsize hsub hstore hrequired
      (.nil t _), rest⟩

/-- A decoding can be cut between any two fields. -/
theorem of_append (h : Decodes env S keep t (xs ++ ys) p r) :
    ∃ q, Decodes env S keep t xs p q ∧ Decodes env S keep t ys q r := by
  induction xs generalizing p with
  | nil => exact ⟨p, .nil t p, h⟩
  | cons x xs ih =>
    obtain ⟨q, hx, hrest⟩ := h.of_cons
    obtain ⟨q', hxs, hys⟩ := ih hrest
    exact ⟨q', hx.append hxs, hys⟩

/-- Only complete fields are decoded. -/
theorem complete (h : Decodes env S keep t xs p q) : ∀ x ∈ xs, x.Complete env := by
  induction h with
  | nil => simp
  | unknown hx hindex rest ih => exact List.forall_mem_cons.mpr ⟨hx, ih⟩
  | plain hx hindex hfield hselect htaken rest ih => exact List.forall_mem_cons.mpr ⟨hx, ih⟩
  | nested hx hindex hfield hselect hnests hpayload hlength hsize hsub hstore hrequired rest _ ih =>
    exact List.forall_mem_cons.mpr ⟨hx, ih⟩

/-- Without fields the draft stays. -/
theorem eq_of_nil (h : Decodes env S keep t [] p q) : q = p := by
  cases h
  rfl

end Decodes

/-- What the payload of a field makes of the message it is decoded into. -/
def Nested (env : Environment) (S : Schema) (keep : Bool) (t : MessageType) (x : WireField)
    (start sub : Message) : Prop :=
  ∃ (length : Bytes) (ys : List WireField) (r : Draft) (c : Cache),
    x.payload = length ++ ys.flatMap WireField.bytes ∧
      IsVarint env length (BitVec.ofNat 64 (ys.flatMap WireField.bytes).length) ∧
      (ys.flatMap WireField.bytes).length ≤ maxByteArraySize ∧
      Decodes env S keep t ys ⟨{}, start⟩ r ∧
      storeCachedValue S t r.cache r.message = (c, sub, true) ∧ RequiredPresent S t ys

/-- What one occurrence of a field makes of its property, and of the entry of a map. -/
inductive Turns (env : Environment) (S : Schema) (keep : Bool) (x : WireField) (f : FieldInfo) :
    Option Message → Value → Option Message → Value → Prop where
  | plain {entry : Option Message} {v v' : Value} (h : Taken env x f.type v v') :
      Turns env S keep x f entry v entry v'
  | message {entry : Option Message} {t' t'' : Nat} {sub sub' : Message}
      (htype : f.type = .message t') (h : Nested env S keep (.named t') x sub sub') :
      Turns env S keep x f entry (.message t'' sub) entry (.message t' sub')
  | messageList {entry : Option Message} {t' t'' : Nat} {ms : List Message} {sub : Message}
      (htype : f.type = .messageList t')
      (h : Nested env S keep (.named t') x (S.defaultMessage (.named t')) sub) :
      Turns env S keep x f entry (.messages t'' ms) entry (.messages t' (ms ++ [sub]))
  | entry {entry : Option Message} {key : ScalarKind} {value : MapValue}
      {entries : List (Scalar × Value)} {sub : Message} (htype : f.type = .hash key value)
      (h : Nested env S keep (.mapEntry key value) x (S.addNext key value entry) sub) :
      Turns env S keep x f entry (.hash entries) (some sub)
        (.hash (hashEmplace entries (entryKey key sub) (S.entryValue value sub)))
  | custom {entry : Option Message} {handler : Handler} {k : Nat} {content : List Message}
      {object : Message} (hhandler : S.handlerOf f.type = some handler)
      (h : Nested env S keep handler.proxy x (S.defaultMessage handler.proxy) object) :
      Turns env S keep x f entry (.custom k content) entry
        (.custom k (handler.assign true object content))

/-- A sub-message was changed in place. -/
def placeProperty (m : Message) (i : Nat) (f : FieldInfo) (v : Value) : Message :=
  if f.type.isPureMessage then m.writeThrough i f v else m

/-- A selected property takes one occurrence of its field in. -/
def Draft.turned (p : Draft) (i : Nat) (f : FieldInfo) (entry : Option Message) (v : Value) :
    Draft :=
  ⟨{ p.cache with propertyValue := v, mapEntry := entry }, placeProperty p.message i f v⟩

/-- A property that is no single message is not placed beforehand. -/
theorem placeProperty_of_not_isPureMessage {f : FieldInfo} (h : f.type.isPureMessage = false)
    (m : Message) (i : Nat) (v : Value) : placeProperty m i f v = m := by
  simp [placeProperty, h]

/-- A type with a handler is no pure message. -/
theorem handlerOf_isPureMessage {type : PropertyType} {handler : Handler}
    (h : S.handlerOf type = some handler) : type.isPureMessage = false := by
  cases type <;> simp_all [Schema.handlerOf, PropertyType.isPureMessage]

/-- The decoding of a nested message is a turn of its field. -/
theorem turns_of_nests {i : Nat} {f : FieldInfo} {m start sub : Message} {c : Cache}
    {t' : MessageType} {next : Message → Cache} {message : Message → Message} {x : WireField}
    (hnests : Nests S i f m c t' start next message) (h : Nested env S keep t' x start sub) :
    ∃ entry v, Turns env S keep x f c.mapEntry c.propertyValue entry v ∧
      (⟨next sub, message sub⟩ : Draft) = Draft.turned ⟨c, m⟩ i f entry v := by
  cases hnests with
  | message htype hv =>
    rename_i t' t''
    refine ⟨c.mapEntry, .message t' sub, by rw [hv]; exact .message htype h, ?_⟩
    simp [Draft.turned, placeProperty, htype, PropertyType.isPureMessage]
  | messageList htype hv =>
    rename_i t' t'' ms
    refine ⟨c.mapEntry, .messages t' (ms ++ [sub]), by rw [hv]; exact .messageList htype h, ?_⟩
    simp [Draft.turned, placeProperty, htype, PropertyType.isPureMessage]
  | entry htype hv =>
    rename_i key value entries
    refine ⟨some sub, .hash (hashEmplace entries (entryKey key sub) (S.entryValue value sub)),
      by rw [hv]; exact .entry htype h, ?_⟩
    simp [Draft.turned, placeProperty, htype, PropertyType.isPureMessage]
  | custom hhandler hv =>
    rename_i handler k content
    refine ⟨c.mapEntry, .custom k (handler.assign true sub content),
      by rw [hv]; exact .custom hhandler h, ?_⟩
    rw [Draft.turned, placeProperty_of_not_isPureMessage (handlerOf_isPureMessage hhandler)]

/-- A field the type has is selected and turned. -/
theorem decodes_known_iff {x : WireField} {p q : Draft} {i : Nat} {f : FieldInfo}
    (hx : x.Complete env)
    (hindex : (S.propertyOrdering t).indexOfFieldNumber x.fieldNumber = some i)
    (hfield : (S.propertyOrdering t).fields[i]? = some f) :
    Decodes env S keep t [x] p q ↔ ∃ c m entry v,
      selectProperty S t i f p.cache p.message = (c, m, true) ∧
        Turns env S keep x f c.mapEntry c.propertyValue entry v ∧
          q = Draft.turned ⟨c, m⟩ i f entry v := by
  constructor
  · intro h
    cases h with
    | unknown hx' hindex' rest =>
      rw [hindex] at hindex'
      cases hindex'
    | plain hx' hindex' hfield' hselect htaken rest =>
      rw [hindex] at hindex'
      cases hindex'
      rw [hfield] at hfield'
      cases hfield'
      obtain rfl := rest.eq_of_nil
      refine ⟨_, _, _, _, hselect, .plain htaken, ?_⟩
      rw [Draft.turned, placeProperty_of_not_isPureMessage
        (isPureMessage_of_not_isMessage htaken.isMessage)]
    | nested hx' hindex' hfield' hselect hnests hpayload hlength hsize hsub hstore hrequired rest =>
      rw [hindex] at hindex'
      cases hindex'
      rw [hfield] at hfield'
      cases hfield'
      obtain rfl := rest.eq_of_nil
      obtain ⟨entry, v, hturns, heq⟩ := turns_of_nests hnests
        ⟨_, _, _, _, hpayload, hlength, hsize, hsub, hstore, hrequired⟩
      exact ⟨_, _, entry, v, hselect, hturns, heq⟩
  · rintro ⟨c, m, entry, v, hselect, hturns, rfl⟩
    generalize hold : c.propertyValue = old at hturns
    generalize hentry : c.mapEntry = before at hturns
    cases hturns with
    | plain htaken =>
      subst hold hentry
      rw [Draft.turned, placeProperty_of_not_isPureMessage
        (isPureMessage_of_not_isMessage htaken.isMessage)]
      exact .plain hx hindex hfield hselect htaken (.nil t _)
    | message htype h =>
      obtain ⟨length, ys, r, c', hpayload, hlength, hsize, hsub, hstore, hrequired⟩ := h
      have hnested := Decodes.nested hx hindex hfield hselect (.message htype hold) hpayload hlength
        hsize hsub hstore hrequired (.nil t _)
      simpa [Draft.turned, placeProperty, htype, PropertyType.isPureMessage, ← hentry] using hnested
    | messageList htype h =>
      obtain ⟨length, ys, r, c', hpayload, hlength, hsize, hsub, hstore, hrequired⟩ := h
      have hnested := Decodes.nested hx hindex hfield hselect (.messageList htype hold) hpayload
        hlength hsize hsub hstore hrequired (.nil t _)
      simpa [Draft.turned, placeProperty, htype, PropertyType.isPureMessage, ← hentry] using hnested
    | entry htype h =>
      subst hentry
      obtain ⟨length, ys, r, c', hpayload, hlength, hsize, hsub, hstore, hrequired⟩ := h
      have hnested := Decodes.nested hx hindex hfield hselect (.entry htype hold) hpayload
        hlength hsize hsub hstore hrequired (.nil t _)
      simpa [Draft.turned, placeProperty, htype, PropertyType.isPureMessage] using hnested
    | custom hhandler h =>
      obtain ⟨length, ys, r, c', hpayload, hlength, hsize, hsub, hstore, hrequired⟩ := h
      have hnested := Decodes.nested hx hindex hfield hselect (.custom hhandler hold) hpayload
        hlength hsize hsub hstore hrequired (.nil t _)
      rw [Draft.turned, placeProperty_of_not_isPureMessage (handlerOf_isPureMessage hhandler),
        ← hentry]
      exact hnested

/-- A field the type does not have is kept or dropped. -/
theorem decodes_unknown_iff {x : WireField} {p q : Draft} (hx : x.Complete env)
    (hindex : (S.propertyOrdering t).indexOfFieldNumber x.fieldNumber = none) :
    Decodes env S keep t [x] p q ↔ q = ⟨p.cache, keptMessage keep p.message x⟩ := by
  constructor
  · intro h
    cases h with
    | unknown hx' hindex' rest => exact rest.eq_of_nil
    | plain hx' hindex' =>
      rw [hindex] at hindex'
      cases hindex'
    | nested hx' hindex' =>
      rw [hindex] at hindex'
      cases hindex'
  · rintro rfl
    exact .unknown hx hindex (.nil t _)

/-! ## What the loop returns -/

/-- The known ones of a sequence of fields, the last one first, and those seen before. -/
def seenBehind (S : Schema) (t : MessageType) (xs : List WireField) (seen : List Nat) : List Nat :=
  (xs.filterMap fun x => (S.propertyOrdering t).indexOfFieldNumber x.fieldNumber).reverse ++ seen

/-- All required fields have been seen behind a sequence that has them. -/
theorem missingFields_seenBehind {xs : List WireField} (h : RequiredPresent S t xs)
    (seen : List Nat) : missingFields (S.propertyOrdering t) (seenBehind S t xs seen) = [] := by
  rw [missingFields, List.map_eq_nil_iff, List.filter_eq_nil_iff]
  rintro ⟨f, i⟩ hfi
  have hf := List.mk_mem_zipIdx_iff_getElem?.mp hfi
  have hcontains : f.fieldFlags.required → (seenBehind S t xs seen).contains i := by
    intro hreq
    obtain ⟨x, hx, hnumber⟩ := h f (List.mem_of_getElem? hf) hreq
    have hindex := indexOfFieldNumber_of_getElem? hf
    rw [← hnumber] at hindex
    refine List.elem_iff.mpr (List.mem_append_left _ (List.mem_reverse.mpr ?_))
    exact List.mem_filterMap.mpr ⟨x, hx, hindex⟩
  simp only [Bool.and_eq_true, Bool.not_eq_eq_eq_not, Bool.not_true, not_and, Bool.not_eq_false]
  exact hcontains

/-- The loop has come from one draft to another, and the decoder has moved on behind what it has
read. -/
structure Reaches (env : Environment) (S : Schema) (t : MessageType) (bytes : Bytes)
    (seen seen' : List Nat) (p q : Draft) (d d' : Deserializer) : Prop where
  leads : LoopState.Leads env S t bytes.length ⟨seen, p.cache, d, p.message⟩
    ⟨seen', q.cache, d', q.message⟩
  it : d'.it = d.it.advance bytes.length
  state : d'.state = d.state
  noError : d'.lastError = d.lastError
  preserves : d'.preserveUnknownFields = d.preserveUnknownFields

/-- Behind its last field a message with all required fields is returned. -/
theorem Reaches.finish {ys : List WireField} {start sub : Message} {r : Draft} {c : Cache}
    {d d' : Deserializer} {tail : Bytes} {frames : List Int}
    (h : Reaches env S t (ys.flatMap WireField.bytes) [] (seenBehind S t ys []) ⟨{}, start⟩ r d d')
    (hd' : d'.At [] tail frames) (hstore : storeCachedValue S t r.cache r.message = (c, sub, true))
    (hrequired : RequiredPresent S t ys) :
    Returns env S t [] {} d start (ys.flatMap WireField.bytes).length
      ({ d' with state := frames }, sub, true) := by
  have hfinish := h.leads 0 ({ d' with state := frames }, sub, true) (Returns.finish hd' (by
    simp only [finishMessage, hstore, checkRequiredFields, missingFields_seenBehind hrequired,
      format]
    split <;> rfl))
  rwa [Nat.zero_add] at hfinish

/-- Behind the fields, the deserializer stands at what follows them. -/
theorem Deserializer.At.reached {xs : List WireField} {seen seen' : List Nat} {p q : Draft}
    {d d' : Deserializer} {input tail : Bytes} {frames : List Int}
    (hd : d.At (xs.flatMap WireField.bytes ++ input) tail frames)
    (h : Reaches env S t (xs.flatMap WireField.bytes) seen seen' p q d d') :
    d'.At input tail frames := by
  have hrest := hd.rest
  rw [List.append_assoc] at hrest
  refine ⟨?_, ?_, ?_, h.noError.trans hd.noError⟩
  · rw [h.it]
    exact Iterator.isValid_advance_append hd.valid hrest
  · rw [h.it]
    exact Iterator.rest_advance_append hd.valid hrest
  · rw [h.state, hd.state, h.it, Iterator.position_advance hd.valid, List.length_append]
    congr 1
    push_cast
    omega

/-- One field, and then the others. -/
theorem Reaches.cons {x : WireField} {xs : List WireField} {seen seen₁ seen' : List Nat}
    {p p₁ q : Draft} {d d₁ d' : Deserializer} {input tail : Bytes} {frames : List Int}
    (hd : d.At (x.bytes ++ input) tail frames)
    (h : Reaches env S t x.bytes seen seen₁ p p₁ d d₁)
    (hrest : Reaches env S t (xs.flatMap WireField.bytes) seen₁ seen' p₁ q d₁ d') :
    Reaches env S t ((x :: xs).flatMap WireField.bytes) seen seen' p q d d' := by
  have hleft := Iterator.bytesLeft_append hd.rest
  rw [List.length_append] at hleft
  refine ⟨?_, ?_, hrest.state.trans h.state, hrest.noError.trans h.noError,
    hrest.preserves.trans h.preserves⟩
  · rw [List.flatMap_cons, List.length_append, Nat.add_comm]
    exact h.leads.trans hrest.leads
  · rw [hrest.it, h.it, Iterator.advance_advance hd.valid (by omega), List.flatMap_cons,
      List.length_append]

/-- The loop decodes fields into what they make of the message, wherever they stand. -/
theorem Decodes.reaches {xs : List WireField} {p q : Draft} (h : Decodes env S keep t xs p q)
    (seen : List Nat) {d : Deserializer} {input tail : Bytes} {frames : List Int}
    (hd : d.At (xs.flatMap WireField.bytes ++ input) tail frames)
    (hkeep : d.preserveUnknownFields = keep) :
    ∃ d', Reaches env S t (xs.flatMap WireField.bytes) seen (seenBehind S t xs seen) p q d d' := by
  induction h generalizing seen d input tail frames with
  | nil t p =>
    exact ⟨d, .refl t _, by simp [Iterator.advance], rfl, rfl, rfl⟩
  | unknown hx hindex rest ih =>
    rename_i t x xs p q
    rw [List.flatMap_cons, List.append_assoc] at hd
    have hpos := hx.length_pos
    obtain ⟨d', hrest⟩ := ih seen (hd.past t) hkeep
    refine ⟨d', ?_⟩
    rw [show seenBehind S t (x :: xs) seen = seenBehind S t xs seen by simp [seenBehind, hindex]]
    have hstep : Reaches env S t x.bytes seen seen p ⟨p.cache, keptMessage keep p.message x⟩ d
        (d.past t x) := by
      refine ⟨fun k result hresult => ?_, rfl, rfl, rfl, rfl⟩
      subst hkeep
      exact (Returns.unknown hx hd hindex hresult).mono (by omega)
    exact Reaches.cons hd hstep hrest
  | plain hx hindex hfield hselect htaken rest ih =>
    rename_i t x xs p q i f c m v
    rw [List.flatMap_cons, List.append_assoc] at hd
    have hpos := hx.length_pos
    obtain ⟨d', hrest⟩ := ih (i :: seen) (hd.past t) hkeep
    refine ⟨d', ?_⟩
    rw [show seenBehind S t (x :: xs) seen = seenBehind S t xs (i :: seen) by
      simp [seenBehind, hindex]]
    have hstep : Reaches env S t x.bytes seen (i :: seen) p ⟨{ c with propertyValue := v }, m⟩ d
        (d.past t x) :=
      ⟨fun k result hresult => (Returns.taken hx hd hindex hfield hselect htaken hresult).mono
        (by omega), rfl, rfl, rfl, rfl⟩
    exact Reaches.cons hd hstep hrest
  | nested hx hindex hfield hselect hnests hpayload hlength hsize hsub hstore hrequired rest ihsub
      ih =>
    rename_i t t' x xs ys p q r i f c c' m start sub next message length
    rw [List.flatMap_cons, List.append_assoc] at hd
    have hmessage : (f.fieldFlags.isMessage || f.fieldFlags.isMap) = true := by
      rw [FieldInfo.fieldFlags_isMessage ((S.propertyOrdering t).presence_fits f
        (List.mem_of_getElem? hfield)), hnests.isMessage]
    have hat := (nextFieldIndex_enter hx hd hpayload hlength hsize hindex hfield hmessage 0
      p.message).2
    rw [← List.append_nil (ys.flatMap WireField.bytes)] at hat
    obtain ⟨d₁, hinner⟩ := ihsub [] hat hkeep
    have hreturns := hinner.finish (hat.reached hinner) hstore hrequired
    rw [List.append_nil] at hreturns hinner
    have hshort : (ys.flatMap WireField.bytes).length + 1 ≤ x.bytes.length := by
      obtain ⟨value, hvarint, -⟩ := hx.header
      have hheader := hvarint.length_pos
      rw [WireField.bytes, hpayload, List.length_append, List.length_append]
      omega
    have hleft := Iterator.bytesLeft_append hd.rest
    rw [List.length_append] at hleft
    have hstep (seen' : List Nat) : Reaches env S t x.bytes seen' (i :: seen') p
        ⟨next sub, message sub⟩ d { d₁ with state := d.state } := by
      refine ⟨fun k result hresult => ?_, ?_, rfl, hinner.noError, hinner.preserves⟩
      · exact (Returns.nests (n := k + (ys.flatMap WireField.bytes).length) hx hd hindex hfield
          hpayload hlength hsize hselect hnests hreturns (by omega)
          (hresult.mono (by omega))).mono (by omega)
      · change d₁.it = _
        rw [hinner.it]
        simp only [Deserializer.enter]
        rw [Iterator.advance_advance hd.valid (by omega)]
        congr 2
        omega
    have hnext : ({ d₁ with state := d.state } : Deserializer).At
        (xs.flatMap WireField.bytes ++ input) tail frames :=
      hd.moved (hstep seen).it (hstep seen).state (hstep seen).noError
    obtain ⟨d', hrest⟩ := ih (i :: seen) hnext (hinner.preserves.trans hkeep)
    refine ⟨d', ?_⟩
    rw [show seenBehind S t (x :: xs) seen = seenBehind S t xs (i :: seen) by
      simp [seenBehind, hindex]]
    exact Reaches.cons hd (hstep seen) hrest

/-! ## Fields that fit are decoded -/

/-- The message only lacks the property in the cache, if there is one, and only maps have left an
entry there. -/
structure Draft.Sound (S : Schema) (t : MessageType) (p : Draft) : Prop where
  pending : Pending S t p.cache p.message
  empty : p.cache.index = none → p.cache = {}
  entry : ∀ i f, p.cache.index = some i → (S.propertyOrdering t).fields[i]? = some f →
    f.type.isMap = false → p.cache.mapEntry = none

/-- A well-formed message with nothing cached is a sound draft. -/
theorem Draft.sound_new (S : Schema) (t : MessageType) {m : Message} (h : WellFormed S t m) :
    Draft.Sound S t ⟨{}, m⟩ := ⟨.stored rfl h, fun _ => rfl, fun _ _ _ _ _ => rfl⟩

/-- A selected property of the type of its field lacks nothing else. -/
theorem Draft.sound_cached {c : Cache} {m : Message} {i : Nat} {f : FieldInfo}
    (hindex : c.index = some i) (hf : (S.propertyOrdering t).fields[i]? = some f)
    (hv : IsProperty S f c.propertyValue) (h : ∀ x ≠ f.memberAt i, FormedAt S t m x)
    (hentry : f.type.isMap = false → c.mapEntry = none) : Draft.Sound S t ⟨c, m⟩ := by
  refine ⟨.cached hindex hf hv h, fun hnone => by simp [hindex] at hnone, fun k g hk hg => ?_⟩
  rw [hindex] at hk
  cases hk
  rw [hf] at hg
  cases hg
  exact hentry

/-- The property can be written. -/
theorem Draft.Sound.store {p : Draft} (h : p.Sound S t) :
    ∃ m, storeCachedValue S t p.cache p.message = ({}, m, true) ∧ WellFormed S t m := by
  obtain ⟨c, m, hstore, -, hformed, -⟩ := storeCachedValue_spec h.pending
  refine ⟨m, ?_, hformed⟩
  suffices hc : c = {} by rw [hstore, hc]
  cases hpending : h.pending with
  | stored hindex _ =>
    rw [h.empty hindex] at hstore
    cases hstore
    rfl
  | cached hindex hf hv _ =>
    simp only [storeCachedValue, hindex, hv.suits.isNull, hf, Bool.false_eq_true, if_false,
      Prod.mk.injEq] at hstore
    exact hstore.1.symm

/-- The property of a field is in the cache, or it comes there when the other one was written. -/
theorem Draft.Sound.select {p : Draft} (h : p.Sound S t) (i : Nat) (f : FieldInfo) :
    p.cache.index = some i ∧
      selectProperty S t i f p.cache p.message = (p.cache, p.message, true) ∨
    p.cache.index ≠ some i ∧ ∃ m, storeCachedValue S t p.cache p.message = ({}, m, true) ∧
      selectProperty S t i f p.cache p.message =
        ({ index := some i, propertyValue := (S.initializedProperty m i f).2 },
          (S.initializedProperty m i f).1, true) := by
  by_cases hi : p.cache.index = some i
  · exact .inl ⟨hi, by simp [selectProperty, hi]⟩
  · obtain ⟨m, hstore, -⟩ := h.store
    exact .inr ⟨hi, m, hstore, by simp only [selectProperty, if_neg hi, hstore, if_true]⟩

/-- The selected property has an entry only if it is that of a map. -/
theorem Draft.Sound.select_entry {p : Draft} (h : p.Sound S t) {i : Nat} {f : FieldInfo}
    (hf : (S.propertyOrdering t).fields[i]? = some f) {c : Cache} {m : Message}
    (hselect : selectProperty S t i f p.cache p.message = (c, m, true))
    (hmap : f.type.isMap = false) : c.mapEntry = none := by
  rcases h.select i f with ⟨hi, hselected⟩ | ⟨hi, M, -, hselected⟩
  · rw [hselected] at hselect
    cases hselect
    exact h.entry i f hi hf hmap
  · rw [hselected] at hselect
    cases hselect
    rfl

/-- A nested message starts well formed. -/
theorem Nests.start_wellFormed {i : Nat} {f : FieldInfo} {m start : Message} {c : Cache}
    {t' : MessageType} {next : Message → Cache} {message : Message → Message}
    (h : Nests S i f m c t' start next message) (hv : IsProperty S f c.propertyValue) :
    WellFormed S t' start := by
  cases h with
  | message htype hc =>
    have hsuits := hv.suits
    rw [htype, hc] at hsuits
    obtain ⟨sub, heq⟩ := hsuits
    cases heq
    exact hv.sub _ _ hc
  | messageList htype hc => exact defaultMessage_wellFormed S _
  | entry htype hc => exact addNext_wellFormed _ _ _
  | custom hhandler hc => exact defaultMessage_wellFormed S _

/-- The property that took a well-formed message in is one of the field. -/
theorem Nests.next_spec {i : Nat} {f : FieldInfo} {m start sub : Message} {c : Cache}
    {t' : MessageType} {next : Message → Cache} {message : Message → Message}
    (h : Nests S i f m c t' start next message) (hsub : WellFormed S t' sub) :
    (next sub).index = c.index ∧ IsProperty S f (next sub).propertyValue ∧
      (∀ y ≠ f.memberAt i, (message sub).member y = m.member y) ∧
        (f.type.isMap = false → (next sub).mapEntry = c.mapEntry) := by
  cases h with
  | message htype hc =>
    refine ⟨rfl, isProperty_message htype hsub, fun y hy => ?_, fun _ => rfl⟩
    unfold Message.writeThrough
    unfold FieldInfo.memberAt at hy
    split <;> simp_all
  | messageList htype hc =>
    exact ⟨rfl, isProperty_of_suits (by rw [htype]; exact ⟨_, _, rfl⟩) (by rw [htype]; rfl),
      fun _ _ => rfl, fun _ => rfl⟩
  | entry htype hc =>
    exact ⟨rfl, isProperty_of_suits (by rw [htype]; exact ⟨_, rfl⟩) (by rw [htype]; rfl),
      fun _ _ => rfl, by simp [htype, PropertyType.isMap]⟩
  | custom hhandler hc =>
    rename_i handler k content
    have hsuits : (Value.custom k (handler.assign true sub content)).Suits f.type := by
      cases htype : f.type <;> simp_all [Schema.handlerOf, Value.Suits]
    exact ⟨rfl, isProperty_of_suits hsuits (handlerOf_isPureMessage hhandler), fun _ _ => rfl,
      fun _ => rfl⟩

/-- Fields keep a draft sound. -/
theorem Decodes.sound {xs : List WireField} {p q : Draft} (h : Decodes env S keep t xs p q)
    (hp : p.Sound S t) : q.Sound S t := by
  induction h with
  | nil t p => exact hp
  | unknown hx hindex rest ih =>
    exact ih ⟨hp.pending.of_member_eq (member_keptMessage keep _ _), hp.empty, hp.entry⟩
  | plain hx hindex hfield hselect htaken rest ih =>
    obtain ⟨c, m, hselect', hc, hproperty, hformed, -⟩ := selectProperty_spec hp.pending hfield
    rw [hselect] at hselect'
    cases hselect'
    have hpure := isPureMessage_of_not_isMessage htaken.isMessage
    have hentry := hp.select_entry hfield hselect
    exact ih (Draft.sound_cached hc hfield (isProperty_of_suits htaken.suits hpure) hformed hentry)
  | nested hx hindex hfield hselect hnests hpayload hlength hsize hsub hstore hrequired rest ihsub
      ih =>
    obtain ⟨c, m, hselect', hc, hproperty, hformed, -⟩ := selectProperty_spec hp.pending hfield
    rw [hselect] at hselect'
    cases hselect'
    obtain ⟨sub, hstore', hformedSub⟩ :=
      (ihsub (Draft.sound_new S _ (hnests.start_wellFormed hproperty))).store
    rw [hstore] at hstore'
    cases hstore'
    obtain ⟨hindex', hproperty', hother, hentry⟩ := hnests.next_spec hformedSub
    exact ih (Draft.sound_cached (hindex'.trans hc) hfield hproperty'
      (fun y hy => (hformed y hy).of_eq (hother y hy))
      fun hmap => (hentry hmap).trans (hp.select_entry hfield hselect hmap))

/-- What every field of a sequence keeps, given the ones before it, the sequence keeps. -/
theorem Decodes.run {I : List WireField → Draft → Prop} {xs : List WireField} {p q : Draft}
    (h : Decodes env S keep t xs p q) (hp : p.Sound S t) (hI : I [] p)
    (hstep : ∀ ys x zs p q, xs = ys ++ x :: zs → p.Sound S t → I ys p →
      Decodes env S keep t [x] p q → I (ys ++ [x]) q) : I xs q := by
  induction xs using List.reverseRecOn generalizing q with
  | nil =>
    obtain rfl := h.eq_of_nil
    exact hI
  | append_singleton xs x ih =>
    obtain ⟨r, hxs, hx⟩ := h.of_append
    have hr := ih hxs fun ys y zs p q heq =>
      hstep ys y (zs ++ [x]) p q (by rw [heq, List.append_assoc, List.cons_append])
    exact hstep xs x [] r q rfl (hxs.sound hp) hr hx

/-- Fields that are decoded from any draft are decoded one after the other. -/
theorem exists_decodes (keep : Bool) (xs : List WireField)
    (hstep : ∀ x ∈ xs, ∀ p : Draft, p.Sound S t → ∃ q, Decodes env S keep t [x] p q ∧ q.Sound S t)
    {p : Draft} (hp : p.Sound S t) : ∃ q, Decodes env S keep t xs p q ∧ q.Sound S t := by
  induction xs generalizing p with
  | nil => exact ⟨p, .nil t p, hp⟩
  | cons x xs ih =>
    obtain ⟨q, hq, hsound⟩ := hstep x List.mem_cons_self p hp
    obtain ⟨r, hr, hsound'⟩ := ih (fun y hy => hstep y (List.mem_cons_of_mem _ hy)) hsound
    exact ⟨r, hq.append hr, hsound'⟩

/-- A field that fits is decoded from any draft. -/
theorem Fits.decodes (keep : Bool) {x : WireField} (h : Fits env S t x) {p : Draft}
    (hp : p.Sound S t) : ∃ q, Decodes env S keep t [x] p q ∧ q.Sound S t := by
  induction h generalizing p with
  | unknown hx hindex =>
    have hdecodes : Decodes env S keep _ [_] p _ := .unknown hx hindex (.nil _ _)
    exact ⟨_, hdecodes, hdecodes.sound hp⟩
  | plain hx hindex hfield htaken =>
    obtain ⟨c, m, hselect, hc, hproperty, hformed, -⟩ := selectProperty_spec hp.pending hfield
    obtain ⟨v, htaken⟩ := htaken.of_suits hproperty.suits
    have hdecodes : Decodes env S keep _ [_] p _ :=
      .plain hx hindex hfield hselect htaken (.nil _ _)
    exact ⟨_, hdecodes, hdecodes.sound hp⟩
  | message hx hindex hfield htype hpayload hlength hsize hfits hrequired ih =>
    obtain ⟨c, m, hselect, hc, hproperty, hformed, -⟩ := selectProperty_spec hp.pending hfield
    obtain ⟨start, next, message, hnests, hstart, -⟩ := exists_nests (m := m) htype hproperty
    obtain ⟨r, hdecodes, hsound⟩ := exists_decodes keep _ (fun y hy q hq => ih y hy hq)
      (Draft.sound_new S _ hstart)
    obtain ⟨sub, hstore, -⟩ := hsound.store
    have hdecodes' := Decodes.nested hx hindex hfield hselect hnests hpayload hlength hsize hdecodes
      hstore hrequired (.nil _ _)
    exact ⟨_, hdecodes', hdecodes'.sound hp⟩

/-- A sequence of fields that fit is decoded. -/
theorem exists_decodes_of_fits (keep : Bool) {xs : List WireField} (h : ∀ x ∈ xs, Fits env S t x)
    {p : Draft} (hp : p.Sound S t) : ∃ q, Decodes env S keep t xs p q ∧ q.Sound S t :=
  exists_decodes keep xs (fun x hx _ hp => (h x hx).decodes keep hp) hp

/-! ## A whole input -/

/-- The required fields are present if and only if none is missing behind the sequence. -/
theorem requiredPresent_iff {xs : List WireField} :
    RequiredPresent S t xs ↔ missingFields (S.propertyOrdering t) (seenBehind S t xs []) = [] := by
  constructor
  · intro h
    exact missingFields_seenBehind h []
  · intro h f hf hrequired
    rw [missingFields, List.map_eq_nil_iff, List.filter_eq_nil_iff] at h
    obtain ⟨i, hi⟩ := List.getElem?_of_mem hf
    have hseen := h (f, i) (List.mk_mem_zipIdx_iff_getElem?.mpr hi)
    simp only [hrequired, Bool.true_and, Bool.not_eq_eq_eq_not, Bool.not_true, Bool.not_eq_false,
      List.contains_iff_mem, seenBehind, List.append_nil, List.mem_reverse, List.mem_filterMap]
      at hseen
    obtain ⟨x, hx, hindex⟩ := hseen
    exact ⟨x, hx, (fieldNumber_of_indexOfFieldNumber hindex hi).symm⟩

/-- The draft the decoding of an input starts with. -/
def Draft.start (S : Schema) (t : MessageType) : Draft := ⟨{}, S.defaultMessage t⟩

/-- The draft that a decoding starts with is sound. -/
theorem Draft.sound_start (S : Schema) (t : MessageType) : (Draft.start S t).Sound S t :=
  Draft.sound_new S t (defaultMessage_wellFormed S t)

/-- The decoder at the begin of an input. -/
theorem started_at (s : Serializer) (data : Bytes) :
    (Serializer.started s.deserializer data).At data [] [] := by
  refine ⟨?_, ?_, ?_, rfl⟩
  · simp [Serializer.started, Deserializer.reset, Iterator.isValid, Iterator.fromView]
  · rw [List.append_nil]
    exact rest_fromView data
  · simp [Serializer.started, Deserializer.reset, Iterator.fromView]

/-- Fields that are decoded make the message of the input they are. It is accepted if and only if
the required fields are among them. -/
theorem Decodes.deserialize {s : Serializer} {xs : List WireField} {q : Draft} {c : Cache}
    {m : Message} (h : Decodes env S s.deserializer.preserveUnknownFields t xs (.start S t) q)
    (hstore : storeCachedValue S t q.cache q.message = (c, m, true))
    (hsize : (xs.flatMap WireField.bytes).length ≤ s.effectiveMaximumInputSize) {fuel : Nat}
    (hfuel : (xs.flatMap WireField.bytes).length < fuel) :
    ∃ s' ok, s.deserialize env S fuel t (xs.flatMap WireField.bytes) = (s', m, .returned ok) ∧
      (ok = true ↔ RequiredPresent S t xs) := by
  have hstarted := started_at s (xs.flatMap WireField.bytes)
  rw [← List.append_nil (xs.flatMap WireField.bytes)] at hstarted
  obtain ⟨d, hreaches⟩ := h.reaches [] hstarted rfl
  have hat := hstarted.reached hreaches
  have hnoError : d.lastError = .none := hat.noError
  rw [List.append_nil] at hreaches
  let d' : Deserializer := { d with state := [] }
  let checked := checkRequiredFields (format env S) S t (seenBehind S t xs []) d'
  have hloop := hreaches.leads 0 (checked.1, m, checked.2)
    (Returns.finish hat (by simp only [finishMessage, hstore]; rfl))
  have hloop := hloop fuel (by omega)
  have hchecked : (checked.1.lastError == .none) = true ↔ RequiredPresent S t xs := by
    have hchecks : (!(format env S).enforceRequiredFields || (format env S).hasError d') = false := by
      simp [format, Deserializer.hasError, d', hnoError]
    rw [requiredPresent_iff]
    simp only [checked, checkRequiredFields, hchecks, Bool.false_eq_true, if_false]
    cases missingFields (S.propertyOrdering t) (seenBehind S t xs []) with
    | nil => simp [d', hnoError]
    | cons name names => simp [format, Deserializer.setError]
  simp only [Draft.start] at hloop
  refine ⟨{ s with deserializer := checked.1.reset [] }, _, ?_, hchecked⟩
  simp only [Serializer.deserialize, if_neg (Nat.not_lt.mpr hsize), deserializeMessage, hloop]
  rfl

end QtGrpc.Protobuf.Binary
