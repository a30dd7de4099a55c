import QtGrpc.Protobuf.Binary.Exchanging
import QtGrpc.WellKnown.Any

/-!
# Packing messages

The handler of an `Any` makes the value again that it wrote, if this has a type URL; the handler of
lists always does. A message that is packed into an `Any` is unpacked from it wherever the binary
round trip holds.
-/

namespace QtGrpc.WellKnown

open QtGrpc.Protobuf QtGrpc.Protobuf.Binary

namespace Any

variable {any : Any} {a : Nat} {env : Environment} {S : Schema} {keep : Bool} {f : FieldInfo}

/-- Byte arrays are told apart by their bytes. -/
theorem eq_of_same_bytes {value : Bytes} {b : Scalar} (h : Scalar.Same ⟨.bytes, value⟩ b) :
    b = ⟨.bytes, value⟩ := by
  rcases h with rfl | h
  · rfl
  · obtain ⟨k, v⟩ := b
    obtain ⟨hk, heq⟩ := Scalar.isEqual_iff.mp h
    obtain rfl : ScalarKind.bytes = k := hk
    simp only [ScalarKind.isEqual, decide_eq_true_eq] at heq
    rw [heq]

/-- A message of the content of the one that was written has the URL and the value. -/
theorem ofRealAny_of_same (ha : S.message a = anyDescriptor) {object : Message}
    (h : Message.Same S (.named a) any.realAny object) : ofRealAny object = any := by
  have hurl := h.fields 0 anyTypeUrlField (by rw [Schema.propertyOrdering, ha]; rfl)
  have hvalue := h.fields 1 anyValueField (by rw [Schema.propertyOrdering, ha]; rfl)
  change Value.Same S (.scalar ⟨.string, any.typeUrl⟩) _ at hurl
  change Value.Same S (.scalar ⟨.bytes, any.value⟩) _ at hvalue
  generalize hurl' : object.messageProperty 0 anyTypeUrlField = url at hurl
  generalize hvalue' : object.messageProperty 1 anyValueField = value at hvalue
  cases hurl with
  | scalar hsame =>
    cases hvalue with
    | scalar hsame' =>
      rw [← hsame.eq rfl] at hurl'
      rw [eq_of_same_bytes hsame'] at hvalue'
      rw [ofRealAny, hurl', hvalue']

/-- A single value is made again if it was written, and a new one if it was not. -/
theorem givesBack_iff (ha : S.message a = anyDescriptor) :
    GivesBack S (handler a) any.content ↔ any.typeUrl ≠ "" ∨ any = {} := by
  constructor
  · intro h
    by_contra hne
    obtain ⟨hurl, hdefault⟩ := not_or.mp hne
    have hnone : (handler a).objects any.content = [] := by
      simp [handler, serializerProxy, not_not.mp hurl]
    have hcontent : [] = any.content := h [] (by rw [hnone]; exact .nil)
    exact hdefault (content_eq_nil.mp hcontent.symm)
  · intro hany objects hobjects
    by_cases hurl : any.typeUrl = ""
    · have hnone : (handler a).objects any.content = [] := by
        simp [handler, serializerProxy, hurl]
      rw [hnone] at hobjects
      rw [List.forall₂_nil_left_iff.mp hobjects]
      exact (content_eq_nil.mpr (hany.resolve_left (not_not.mpr hurl))).symm
    · have hone : (handler a).objects any.content = [any.realAny] := by
        simp [handler, serializerProxy, hurl]
      rw [hone] at hobjects
      obtain ⟨object, rest, hsame, hrest, rfl⟩ := List.forall₂_cons_left_iff.mp hobjects
      rw [List.forall₂_nil_left_iff.mp hrest]
      change (ofRealAny object).content = any.content
      rw [ofRealAny_of_same ha hsame]

/-- Lists are made again whatever they hold. -/
theorem givesBack_list (ha : S.message a = anyDescriptor) (anys : List Any) :
    GivesBack S (listHandler a) (anys.map realAny) := by
  suffices hall : ∀ objects content,
      List.Forall₂ (Message.Same S (.named a)) (anys.map realAny) objects →
        objects.foldl (fun content object => listDeserializerProxy true object content) content =
          content ++ anys.map realAny by
    intro objects hobjects
    have hwritten : (listHandler a).objects (anys.map realAny) = anys.map realAny := by
      simp [listHandler, listSerializerProxy]
    rw [hwritten] at hobjects
    exact hall objects [] hobjects
  induction anys with
  | nil =>
    intro objects content hobjects
    rw [List.forall₂_nil_left_iff.mp hobjects]
    simp
  | cons any anys ih =>
    intro objects content hobjects
    obtain ⟨object, rest, hsame, hrest, rfl⟩ := List.forall₂_cons_left_iff.mp hobjects
    rw [List.foldl_cons, ih rest _ hrest]
    simp [listDeserializerProxy, ofRealAny_of_same ha hsame]

/-- A single value survives its exchange if it has a type URL, or where a new one need not be told
from an unset field. -/
theorem survives (ha : S.message a = anyDescriptor)
    (h : any.typeUrl ≠ "" ∨ any = {} ∧ f.presence = .implicit) :
    Survives S f (handler a) any.content where
  givesBack := (givesBack_iff ha).mpr (h.imp_right And.left)
  isEqual hequal := by
    have heq : ofContent [] = ofContent any.content := of_decide_eq_true hequal
    rw [ofContent_content] at heq
    exact content_eq_nil.mpr heq.symm
  written hpresence := by
    have hurl := h.resolve_right fun himplicit => hpresence himplicit.2
    simp [handler, serializerProxy, hurl]

/-- A list survives its exchange. -/
theorem survives_list (ha : S.message a = anyDescriptor) (hf : f.presence = .implicit)
    (anys : List Any) : Survives S f (listHandler a) (anys.map realAny) where
  givesBack := givesBack_list ha anys
  isEqual hequal := by
    have heq : [] = (anys.map realAny).map ofRealAny := of_decide_eq_true hequal
    exact List.map_eq_nil_iff.mp heq.symm
  written hpresence := absurd hf hpresence

/-- The message has the type URL and the value. -/
theorem property_cases (ha : S.message a = anyDescriptor) (any : Any) {i : Nat}
    (hf : (S.propertyOrdering (.named a)).fields[i]? = some f) :
    f = anyTypeUrlField ∧ any.realAny.messageProperty i f = .scalar ⟨.string, any.typeUrl⟩ ∨
      f = anyValueField ∧ any.realAny.messageProperty i f = .scalar ⟨.bytes, any.value⟩ := by
  rw [Schema.propertyOrdering, ha] at hf
  rcases i with _ | _ | i
  · cases hf
    exact .inl ⟨rfl, rfl⟩
  · cases hf
    exact .inr ⟨rfl, rfl⟩
  · cases hf

/-- What an `Any` is written as may be exchanged, if its type URL survives. -/
theorem fullyExchangeable_realAny (ha : S.message a = anyDescriptor) (any : Any)
    (hurl : startsWithMark any.typeUrl = false) :
    FullyExchangeable env S keep (.named a) any.realAny := by
  refine fullyExchangeable_of_scalars (valid_of_known (fun i f hf => ?_) rfl)
    (entriesComplete_of_known rfl) (fun i f hf text htext => ?_) fun i f hf => ?_
  · obtain ⟨rfl, hv⟩ | ⟨rfl, hv⟩ := property_cases ha any hf
    · rw [hv]
      exact @Value.IsOf.scalar .string any.typeUrl
    · rw [hv]
      exact @Value.IsOf.scalar .bytes any.value
  · obtain ⟨-, hv⟩ | ⟨-, hv⟩ := property_cases ha any hf
    · rw [hv] at htext
      obtain rfl := List.mem_singleton.mp htext
      exact hurl
    · rw [hv] at htext
      cases htext
  · obtain ⟨-, hv⟩ | ⟨-, hv⟩ := property_cases ha any hf
    · exact .inl ⟨_, hv⟩
    · exact .inl ⟨_, hv⟩

/-! ## Packing -/

/-- `Any::fromMessageImpl`. -/
def fromMessageImpl (order : HashOrder) (S : Schema) (fuel : Nat) (d : SerializerPrivate)
    (t : MessageType) (m : Message) (typeUrlPrefix : String) : SerializerPrivate × Option Any :=
  let (d, value) := d.serializeMessage order S fuel t m
  (d, value.map fun value =>
    { typeUrl := typeUrlPrefix ++ "/" ++ (S.propertyOrdering t).messageFullName, value })

/-- The text behind the last slash of a URL. -/
def lastSegment (typeUrl : String) : List Char :=
  (typeUrl.toList.reverse.takeWhile (· ≠ '/')).reverse

/-- `Any::unpackImpl`, into a new message. -/
def unpackImpl (env : Environment) (S : Schema) (fuel : Nat) (d : SerializerPrivate)
    (t : MessageType) (any : Any) : SerializerPrivate × Message × Outcome :=
  if lastSegment any.typeUrl ≠ (S.propertyOrdering t).messageFullName.toList then
    (d, S.defaultMessage t, .returned false)
  else d.deserializeMessage env S fuel t any.value

/-- The name of a type is found again behind whatever prefix. -/
theorem lastSegment_append (typeUrlPrefix : String) {name : String} (h : '/' ∉ name.toList) :
    lastSegment (typeUrlPrefix ++ "/" ++ name) = name.toList := by
  have hname : ∀ c ∈ name.toList.reverse, decide (c ≠ '/') = true := by
    intro c hc
    simp only [decide_eq_true_eq]
    rintro rfl
    exact h (List.mem_reverse.mp hc)
  simp only [lastSegment, String.toList_append, List.reverse_append]
  rw [List.takeWhile_append_of_pos hname]
  simp

/-- A URL starts as its prefix does. -/
theorem startsWithMark_append (typeUrlPrefix name : String) :
    startsWithMark (typeUrlPrefix ++ "/" ++ name) = startsWithMark typeUrlPrefix := by
  simp only [startsWithMark, String.toList_append]
  cases typeUrlPrefix.toList <;> simp

/-- A message that was packed survives wherever the `Any` is a value, which is found again itself if
the prefix does not start with U+FEFF. It is unpacked on the other side, whatever URL the name of its
type was appended to, if the serializer finds it again. -/
theorem fromMessageImpl_unpacked (env : Environment) (order : HashOrder) (S : Schema)
    (ha : S.message a = anyDescriptor) (d : SerializerPrivate) (t : MessageType)
    (hname : '/' ∉ (S.propertyOrdering t).messageFullName.toList) (m : Message)
    (hfound : RoundTrips env order S d t m) (typeUrlPrefix : String)
    (fuel : Nat) (d' : SerializerPrivate) (any : Any)
    (h : fromMessageImpl order S fuel d t m typeUrlPrefix = (d', some any))
    (herror : d'.base.deserializer.lastError = .none) :
    (∀ f, Survives S f (handler a) any.content) ∧
      (startsWithMark typeUrlPrefix = false →
        ∀ keep, FullyExchangeable env S keep (.named a) any.realAny) ∧
      ∀ fuel', any.value.length < fuel' →
        ∃ d'' m', unpackImpl env S fuel' d' t any = (d'', m', .returned true) ∧
          m.Same S t m' := by
  obtain ⟨d₁, data, hwritten⟩ :
      ∃ d₁ data, d.serializeMessage order S fuel t m = (d₁, data) := ⟨_, _, rfl⟩
  simp only [fromMessageImpl, hwritten, Prod.mk.injEq, Option.map_eq_some_iff] at h
  obtain ⟨rfl, value, rfl, rfl⟩ := h
  refine ⟨fun f => survives ha (.inl ?_), fun hprefix keep => ?_, fun fuel' hfuel => ?_⟩
  · intro hempty
    have hlength := congrArg String.length hempty
    simp at hlength
  · exact fullyExchangeable_realAny ha _ ((startsWithMark_append typeUrlPrefix _).trans hprefix)
  · obtain ⟨d'', m', hread, hsame⟩ := hfound fuel d₁ value hwritten herror fuel' hfuel
    refine ⟨d'', m', ?_, hsame⟩
    rw [unpackImpl, lastSegment_append typeUrlPrefix hname, if_neg (not_not.mpr rfl)]
    exact hread

end Any

/-! ## A program with values of any type -/

/-- A type with an optional number and a type with an `Any` and a list of them. -/
def envelopeSchema : Schema where
  message
    | 0 => readingSchema.message 0
    | 1 => anyDescriptor
    | _ => ⟨"Envelope", [
        { fieldNumber := 1, jsonName := "detail", type := .custom 0 false },
        { fieldNumber := 2, jsonName := "details", type := .custom 1 true }],
        by decide, by decide, by decide⟩
  enumKeys _ := []
  findHandler
    | 0 => some (Any.handler 1)
    | 1 => some (Any.listHandler 1)
    | _ => none
  typeName _ := ""

/-- The sample schema can be encoded. -/
theorem encodable_envelopeSchema : Encodable envelopeSchema := by
  have hfield {t : Nat} {f : FieldInfo} (hf : f ∈ (envelopeSchema.message t).fields) :
      (∀ key value, f.type ≠ .hash key value) ∧ ∀ e, f.type ≠ .enum e := by
    rcases t with _ | _ | t
    · obtain rfl := List.mem_singleton.mp hf
      simp
    · rcases List.mem_pair.mp hf with rfl | rfl
      · simp [anyTypeUrlField]
      · simp [anyValueField]
    · rcases List.mem_pair.mp hf with rfl | rfl
      · simp
      · simp
  exact ⟨fun t f hf key value htype => absurd htype ((hfield hf).1 key value),
    fun t f hf e htype => absurd htype ((hfield hf).2 e)⟩

/-- A number. -/
def reading : Message :=
  .mk ((envelopeSchema.defaultMessage (.named 0)).setMember (.field 0)
    (.scalar ⟨.int64, (7 : BitVec 64)⟩)).member []

/-- The number as a value of any type. -/
def packedReading : Any := { typeUrl := "type.googleapis.com/Reading", value := [0x08, 0x07] }

/-- A value of any type, which is in the list once more, between values without a type URL. -/
def envelope : Message :=
  .mk (((envelopeSchema.defaultMessage (.named 2)).setMember (.field 0)
    (.custom 0 packedReading.content)).setMember (.field 1)
      (.custom 1 ([{}, packedReading, { value := [0x08, 0x07] }].map Any.realAny))).member []

/-- The sample's reading can be exchanged. -/
theorem fullyExchangeable_reading :
    FullyExchangeable nullTerminated envelopeSchema true (.named 0) reading := by
  have hproperty {i : Nat} {f : FieldInfo}
      (hf : ((envelopeSchema.propertyOrdering (.named 0)).fields)[i]? = some f) :
      f.type = .scalar .int64 ∧
        reading.messageProperty i f = .scalar ⟨.int64, (7 : BitVec 64)⟩ := by
    rcases i with _ | i
    · cases hf
      exact ⟨rfl, rfl⟩
    · cases hf
  refine fullyExchangeable_of_scalars (valid_of_known (fun i f hf => ?_) rfl)
    (entriesComplete_of_known rfl) (fun i f hf text htext => ?_)
    fun i f hf => .inl ⟨_, (hproperty hf).2⟩
  · rw [(hproperty hf).1, (hproperty hf).2]
    exact @Value.IsOf.scalar .int64 (7 : BitVec 64)
  · rw [(hproperty hf).2] at htext
    cases htext

/-- The number is found again. -/
theorem found_reading :
    RoundTrips nullTerminated .ofInsertion envelopeSchema (.new {}) (.named 0) reading :=
  (encodable_envelopeSchema.restorable .ofInsertion).foundAgain rfl fullyExchangeable_reading

/-- The packed reading survives in the message for `Any` and is unpacked again. -/
theorem packedReading_unpacked :
    (∀ f, Survives envelopeSchema f (Any.handler 1) packedReading.content) ∧
      (startsWithMark "type.googleapis.com" = false → ∀ keep,
        FullyExchangeable nullTerminated envelopeSchema keep (.named 1) packedReading.realAny) ∧
      ∀ fuel', packedReading.value.length < fuel' →
        ∃ d'' m', Any.unpackImpl nullTerminated envelopeSchema fuel'
            (Any.fromMessageImpl .ofInsertion envelopeSchema 2 (.new {}) (.named 0) reading
              "type.googleapis.com").1 (.named 0) packedReading = (d'', m', .returned true) ∧
          reading.Same envelopeSchema (.named 0) m' :=
  Any.fromMessageImpl_unpacked nullTerminated .ofInsertion envelopeSchema rfl (.new {}) (.named 0)
    (by decide) reading found_reading "type.googleapis.com" 2 _ packedReading
    (Prod.ext rfl (by decide +kernel)) (by decide +kernel)

/-- The envelope holds the packed reading in each of its fields. -/
theorem property_envelope {i : Nat} {f : FieldInfo}
    (hf : ((envelopeSchema.propertyOrdering (.named 2)).fields)[i]? = some f) :
    f.presence = .implicit ∧ (f.type = .custom 0 false ∧
        envelope.messageProperty i f = .custom 0 packedReading.content ∨
      f.type = .custom 1 true ∧ envelope.messageProperty i f =
        .custom 1 ([{}, packedReading, { value := [0x08, 0x07] }].map Any.realAny)) := by
  rcases i with _ | _ | i
  · cases hf
    exact ⟨rfl, .inl ⟨rfl, rfl⟩⟩
  · cases hf
    exact ⟨rfl, .inr ⟨rfl, rfl⟩⟩
  · cases hf

/-- The envelope can be exchanged at its own level. -/
theorem exchangeable_envelope :
    Exchangeable nullTerminated envelopeSchema true (.named 2) envelope := by
  refine ⟨valid_of_known (fun i f hf => ?_) rfl, entriesComplete_of_known rfl,
    fun i f hf text htext => ?_, fun i f hf hrequired => ?_, fun i f k content hf hv => ?_⟩
  · obtain ⟨-, ⟨htype, hv⟩ | ⟨htype, hv⟩⟩ := property_envelope hf
    · rw [htype, hv]
      exact .custom _
    · rw [htype, hv]
      exact .custom _
  · obtain ⟨-, ⟨-, hv⟩ | ⟨-, hv⟩⟩ := property_envelope hf
    · rw [hv] at htext
      cases htext
    · rw [hv] at htext
      cases htext
  · rw [(property_envelope hf).1] at hrequired
    cases hrequired
  · obtain ⟨himplicit, ⟨-, hv'⟩ | ⟨-, hv'⟩⟩ := property_envelope hf
    · rw [hv'] at hv
      cases hv
      exact ⟨Any.handler 1, rfl, Any.survives rfl (.inl (by decide))⟩
    · rw [hv'] at hv
      cases hv
      exact ⟨Any.listHandler 1, rfl, Any.survives_list rfl himplicit _⟩

/-- The envelope can be exchanged at every level. -/
theorem fullyExchangeable_envelope :
    FullyExchangeable nullTerminated envelopeSchema true (.named 2) envelope := by
  intro u n hexchanges
  cases hexchanges with
  | self => exact exchangeable_envelope
  | message hg hv | element hg hv | value hg hv =>
    obtain ⟨-, ⟨-, hv'⟩ | ⟨-, hv'⟩⟩ := property_envelope hg
    · rw [hv'] at hv
      cases hv
    · rw [hv'] at hv
      cases hv
  | proxy hg hv hhandler hobject hrest =>
    obtain ⟨-, ⟨-, hv'⟩ | ⟨-, hv'⟩⟩ := property_envelope hg
    · rw [hv'] at hv
      cases hv
      cases hhandler
      obtain rfl := List.mem_singleton.mp hobject
      exact Any.fullyExchangeable_realAny rfl packedReading (by decide) u n hrest
    · rw [hv'] at hv
      cases hv
      cases hhandler
      obtain ⟨object, hmem, rfl⟩ := List.mem_map.mp hobject
      obtain ⟨any, hlisted, rfl⟩ := List.mem_map.mp hmem
      have hany : ∀ any ∈ [{}, packedReading, { value := [0x08, 0x07] }],
          startsWithMark any.typeUrl = false := by decide
      exact Any.fullyExchangeable_realAny rfl any (hany any hlisted) u n hrest

/-- The envelope is given back. -/
theorem envelope_foundAgain :
    RoundTrips nullTerminated .ofInsertion envelopeSchema (.new {}) (.named 2) envelope :=
  exchanged_foundAgain nullTerminated .ofInsertion envelopeSchema encodable_envelopeSchema (.new {})
    rfl (.named 2) envelope fullyExchangeable_envelope

end QtGrpc.WellKnown
