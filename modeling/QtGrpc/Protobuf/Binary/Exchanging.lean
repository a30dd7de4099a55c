import QtGrpc.Protobuf.Binary.RequiredFields

/-!
# Values that are exchanged as messages

A type with a registered handler has no fields of its own: its values are written as messages of
another type, and made of these again. A message that contains such values is found again if the
handlers give back what they took, and so is one with required fields that are set. Here, too, a
string that starts with U+FEFF would come back without it.
-/

namespace QtGrpc.Protobuf.Binary

section

variable (env : Environment) (S : Schema) (keep : Bool)

/-- A schema whose types are those of the wire format: keys of maps are no floating point numbers,
and the first value of an enumeration is zero where it is the value of a field that is not set. -/
structure Encodable : Prop where
  keys : ∀ t, ∀ f ∈ (S.message t).fields, ∀ key value, f.type = .hash key value →
    key.isMapKey = true
  enums : ∀ t, ∀ f ∈ (S.message t).fields, ∀ e, f.type = .enum e → f.presence = .implicit →
    S.firstEnumerator e = 0

/-- A message, the messages within it and those that its values are exchanged as. -/
inductive Exchanges : MessageType → Message → MessageType → Message → Prop where
  | self (t : MessageType) (m : Message) : Exchanges t m t m
  | message {t u : MessageType} {t' i : Nat} {m m' n : Message} {f : FieldInfo}
      (hf : (S.propertyOrdering t).fields[i]? = some f)
      (hv : m.messageProperty i f = .message t' m') (h : Exchanges (.named t') m' u n) :
      Exchanges t m u n
  | element {t u : MessageType} {t' i : Nat} {m m' n : Message} {f : FieldInfo} {ms : List Message}
      (hf : (S.propertyOrdering t).fields[i]? = some f)
      (hv : m.messageProperty i f = .messages t' ms) (hm : m' ∈ ms)
      (h : Exchanges (.named t') m' u n) : Exchanges t m u n
  | value {t u : MessageType} {t' i : Nat} {m m' n : Message} {f : FieldInfo} {key : Scalar}
      {entries : List (Scalar × Value)} (hf : (S.propertyOrdering t).fields[i]? = some f)
      (hv : m.messageProperty i f = .hash entries) (hm : (key, .message t' m') ∈ entries)
      (h : Exchanges (.named t') m' u n) : Exchanges t m u n
  | proxy {t u : MessageType} {i k : Nat} {m object n : Message} {f : FieldInfo}
      {content : List Message} {handler : Handler}
      (hf : (S.propertyOrdering t).fields[i]? = some f)
      (hv : m.messageProperty i f = .custom k content) (hhandler : S.findHandler k = some handler)
      (hobject : object ∈ handler.objects content) (h : Exchanges handler.proxy object u n) :
      Exchanges t m u n

/-- The value of a field is made again of what it is written as. Its setter tells it from a new one,
and where the field tells whether it is set, something is written. -/
structure Survives (f : FieldInfo) (handler : Handler) (content : List Message) : Prop where
  givesBack : GivesBack S handler content
  isEqual : handler.isEqual [] content = true → content = []
  written : f.presence ≠ .implicit → handler.objects content ≠ []

/-- A message of its type with complete unknown fields, whose strings are written without a mark,
whose required messages are set and whose exchanged values survive. -/
structure Exchangeable (t : MessageType) (m : Message) : Prop where
  valid : m.Valid S t
  entries : EntriesComplete env keep m
  texts : m.Unmarked S t
  required : ∀ i f, (S.propertyOrdering t).fields[i]? = some f → f.presence = .required →
    m.messageProperty i f ≠ .null
  handlers : ∀ i f k content, (S.propertyOrdering t).fields[i]? = some f →
    m.messageProperty i f = .custom k content →
      ∃ handler, S.findHandler k = some handler ∧ Survives S f handler content

/-- The same of all messages that are written with a message. -/
def FullyExchangeable (t : MessageType) (m : Message) : Prop :=
  ∀ u n, Exchanges S t m u n → Exchangeable env S keep u n

end

variable {env : Environment} {S : Schema} {keep : Bool} {t : MessageType} {i k : Nat}
  {f g : FieldInfo} {m : Message}

namespace Encodable

/-- The keys of a map are of a type for keys. -/
theorem map_key (hS : Encodable S) (hf : f ∈ (S.propertyOrdering t).fields) {key : ScalarKind}
    {value : MapValue} (htype : f.type = .hash key value) : key.isMapKey = true := by
  rcases Ordinary.field_cases hf with ⟨t', hmem⟩ | ⟨-, -, hmap⟩
  · exact hS.keys t' f hmem key value htype
  · rw [htype] at hmap
    cases hmap

/-- The first value of an enumeration without presence is zero. -/
theorem enum_zero (hS : Encodable S) (hf : f ∈ (S.propertyOrdering t).fields) {e : Nat}
    (htype : f.type = .enum e) (himplicit : f.presence = .implicit) : S.firstEnumerator e = 0 := by
  rcases Ordinary.field_cases hf with ⟨t', hmem⟩ | ⟨hpresence, -⟩
  · exact hS.enums t' f hmem e htype himplicit
  · rw [hpresence] at himplicit
    cases himplicit

end Encodable

/-- A value that survives is kept by its setter. -/
theorem Survives.setterKeeps {handler : Handler} {content : List Message}
    (h : Survives S f handler content) (hhandler : S.findHandler k = some handler) :
    SetterKeeps S (.custom k content) := by
  rintro k' content' heq hequal
  cases heq
  rw [Schema.isEqual, hhandler] at hequal
  exact h.isEqual hequal

/-- An exchangeable message gets its values back. -/
theorem Exchangeable.regains (hS : Encodable S) (h : Exchangeable env S keep t m)
    (hf : (S.propertyOrdering t).fields[i]? = some f) : Regains S f (m.messageProperty i f) := by
  have hmem := List.mem_of_getElem? hf
  refine ⟨fun hrequired => h.required i f hf (presence_of_required hrequired), h.texts i f hf,
    fun e htype => hS.enum_zero hmem htype, fun key value htype => hS.map_key hmem htype,
    fun k content hv => ?_, fun k content hv => ?_⟩
  · obtain ⟨handler, hhandler, hsurvives⟩ := h.handlers i f k content hf hv
    rw [hv]
    exact hsurvives.setterKeeps hhandler k content rfl
  · obtain ⟨handler, hhandler, hsurvives⟩ := h.handlers i f k content hf hv
    exact ⟨handler, hhandler, hsurvives.givesBack, hsurvives.written⟩

namespace FullyExchangeable

/-- A message all of whose messages are exchangeable is so itself. -/
theorem exchangeable (h : FullyExchangeable env S keep t m) : Exchangeable env S keep t m :=
  h t m (.self t m)

/-- The entry object may be written whenever it stands for an entry. -/
theorem standsFor (h : FullyExchangeable env S keep t m)
    (hf : (S.propertyOrdering t).fields[i]? = some f) {key : ScalarKind} {value : MapValue}
    {entries : List (Scalar × Value)} (hv : m.messageProperty i f = .hash entries)
    {e : Scalar × Value} (he : e ∈ entries) (hkey : e.1.1 = key)
    (hvalue : e.2.IsOf (.ofMapValue value)) {entry : Message} (hstands : StandsFor e entry) :
    FullyExchangeable env S keep (.mapEntry key value) entry := by
  have htexts : ∀ text ∈ (Value.hash entries).texts, startsWithMark text = false := by
    rw [← hv]
    exact h.exchangeable.texts i f hf
  have hcustom {k i : Nat} {g : FieldInfo} {content : List Message}
      (hg : (S.propertyOrdering (.mapEntry key value)).fields[i]? = some g) :
      entry.messageProperty i g ≠ .custom k content := by
    obtain ⟨v, hproperty⟩ | ⟨a, b, hproperty⟩ | ⟨t', m', hproperty, -⟩ := hstands.cases hvalue hg
    all_goals
      rw [hproperty]
      exact Value.noConfusion
  have hhere : Exchangeable env S keep (.mapEntry key value) entry := by
    refine ⟨hstands.valid hkey hvalue, hstands.entriesComplete, hstands.unmarked hvalue he htexts,
      fun i g hg hrequired => ?_, fun i g k content hg hv => absurd hv (hcustom hg)⟩
    rcases i with _ | _ | i
    · cases hg
      cases hrequired
    · cases hg
      cases hrequired
    · cases hg
  intro u n hexchanges
  cases hexchanges with
  | self => exact hhere
  | message hg hmessage hrest =>
    obtain ⟨v, hproperty⟩ | ⟨a, b, hproperty⟩ | ⟨t', m', hproperty, he'⟩ := hstands.cases hvalue hg
    all_goals
      rw [hproperty] at hmessage
      cases hmessage
    rw [show e = (e.1, e.2) from rfl, he'] at he
    exact h u n (.value hf hv he hrest)
  | element hg hmessages hm hrest =>
    obtain ⟨v, hproperty⟩ | ⟨a, b, hproperty⟩ | ⟨t', m', hproperty, -⟩ := hstands.cases hvalue hg
    all_goals
      rw [hproperty] at hmessages
      cases hmessages
  | value hg hhash hm hrest =>
    obtain ⟨v, hproperty⟩ | ⟨a, b, hproperty⟩ | ⟨t', m', hproperty, -⟩ := hstands.cases hvalue hg
    all_goals
      rw [hproperty] at hhash
      cases hhash
  | proxy hg hproxy => exact absurd hproxy (hcustom hg)

/-- What a property is written as may be written in turn. -/
theorem part (h : FullyExchangeable env S keep t m)
    (hf : (S.propertyOrdering t).fields[i]? = some f) {u : MessageType} {n : Message}
    (hpart : Part S f (m.messageProperty i f) u n) : FullyExchangeable env S keep u n := by
  generalize hv : m.messageProperty i f = v at hpart
  cases hpart with
  | message m' => exact fun w l hrest => h w l (.message hf hv hrest)
  | element hm => exact fun w l hrest => h w l (.element hf hv hm hrest)
  | entry htype he hstands =>
    rcases h.exchangeable.valid.fields i f hf with hvalue | ⟨hnull, -⟩
    · rw [hv, htype] at hvalue
      cases hvalue with
      | hash hkeys _ hvalues => exact h.standsFor hf hv he (hkeys _ he) (hvalues _ he) hstands
    · rw [hv] at hnull
      cases hnull
  | proxy hhandler hobject => exact fun w l hrest => h w l (.proxy hf hv hhandler hobject hrest)

end FullyExchangeable

/-! ## Messages without unknown fields -/

/-- Without unknown fields a message with values of its types is valid. -/
theorem valid_of_known (h : ∀ i f, (S.propertyOrdering t).fields[i]? = some f →
    (m.messageProperty i f).IsOf f.type) (hknown : m.unknownEntries = []) : m.Valid S t :=
  ⟨fun i f hf => .inl (h i f hf), by simp [hknown], by simp [hknown]⟩

/-- Without unknown fields all of them are complete. -/
theorem entriesComplete_of_known (hknown : m.unknownEntries = []) : EntriesComplete env keep m := by
  simp [EntriesComplete, hknown]

/-- Messages of scalars and lists of them are written without other messages. -/
theorem fullyExchangeable_of_scalars (hvalid : m.Valid S t) (hentries : EntriesComplete env keep m)
    (htexts : m.Unmarked S t)
    (hscalar : ∀ i f, (S.propertyOrdering t).fields[i]? = some f →
      (∃ v, m.messageProperty i f = .scalar v) ∨ ∃ k vs, m.messageProperty i f = .scalars k vs) :
    FullyExchangeable env S keep t m := by
  have hhere : Exchangeable env S keep t m := by
    refine ⟨hvalid, hentries, htexts, fun i f hf _ hnull => ?_, fun i f k content hf hv => ?_⟩
    · obtain ⟨v, hv⟩ | ⟨k, vs, hv⟩ := hscalar i f hf
      all_goals
        rw [hv] at hnull
        cases hnull
    · obtain ⟨v, hv'⟩ | ⟨k, vs, hv'⟩ := hscalar i f hf
      all_goals
        rw [hv'] at hv
        cases hv
  intro u n hexchanges
  cases hexchanges with
  | self => exact hhere
  | message hg hv | element hg hv | value hg hv | proxy hg hv =>
    obtain ⟨v, hv'⟩ | ⟨k, vs, hv'⟩ := hscalar _ _ hg
    all_goals
      rw [hv'] at hv
      cases hv

/-- Messages whose values survive their exchange are found again. -/
theorem Encodable.restorable (hS : Encodable S) (order : HashOrder) :
    Restorable env S keep order (FullyExchangeable env S keep) where
  valid h := ⟨h.exchangeable.valid, h.exchangeable.entries⟩
  regains h hf := h.exchangeable.regains hS hf
  written h hf hrequired hwrites := by
    have hhere := h.exchangeable
    have hpresence := presence_of_required hrequired
    refine WritesProperty.ne_nil hhere.valid
      (fun hnull => absurd hnull (hhere.required _ _ hf hpresence)) hf hrequired
      (fun k content hv => ?_) hwrites
    obtain ⟨handler, hhandler, hsurvives⟩ := hhere.handlers _ _ k content hf hv
    exact ⟨handler, hhandler, hsurvives.written (by simp [hpresence])⟩
  parts h hf hpart := h.part hf hpart

/-- The serializer finds a message again, whatever required fields, maps and values of other types
it has, if all that was written of these makes them again. -/
theorem exchanged_foundAgain (env : Environment) (order : HashOrder) (S : Schema)
    (hS : Encodable S) (d : SerializerPrivate)
    (hlimit : d.base.effectiveMaximumInputSize = maxSerializeMessageSizeLimit) (t : MessageType)
    (m : Message) (hm : FullyExchangeable env S d.preserveUnknownFields t m) :
    RoundTrips env order S d t m :=
  (hS.restorable order).foundAgain hlimit hm

end QtGrpc.Protobuf.Binary
