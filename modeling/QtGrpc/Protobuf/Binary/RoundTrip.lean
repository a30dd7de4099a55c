import QtGrpc.Protobuf.Binary.Instance
import QtGrpc.Protobuf.Binary.Rebuilding

/-!
# Decoding what was encoded

The encoder writes the properties of a message in their order and the entries of unknown fields
behind them. The decoder stores each property when the fields of the next one begin, and finds the
message again if all that was kept of unknown fields are complete fields.
-/

namespace QtGrpc.Protobuf.Binary

section

variable (env : Environment) (S : Schema) (keep : Bool)

/-- A schema of messages without required fields whose types are those of the wire format: keys of
maps are no floating point numbers, and the first value of an enumeration is zero where it is the
value of a field that is not set. -/
structure Ordinary : Prop where
  required : ∀ t, ∀ f ∈ (S.message t).fields, f.presence ≠ .required
  custom : ∀ t, ∀ f ∈ (S.message t).fields, ∀ h isList, f.type ≠ .custom h isList
  keys : ∀ t, ∀ f ∈ (S.message t).fields, ∀ key value, f.type = .hash key value →
    key.isMapKey = true
  enums : ∀ t, ∀ f ∈ (S.message t).fields, ∀ e, f.type = .enum e → f.presence = .implicit →
    S.firstEnumerator e = 0

/-- What a message keeps of unknown fields are complete fields of their numbers, and it is written
with the message. -/
def EntriesComplete (m : Message) : Prop :=
  ∀ g ∈ m.unknownEntries, keep = true ∧ ∀ entry ∈ g.2, ∃ x : WireField,
    x.Complete env ∧ x.fieldNumber = g.1 ∧ x.bytes = entry

/-- Something holds of a message and of all messages within it. -/
def Throughout (P : MessageType → Message → Prop) (t : MessageType) (m : Message) : Prop :=
  ∀ u n, Message.Holds S t m u n → P u n

/-- A message of its type with complete unknown fields in it and in the messages within it. -/
def Recoverable : MessageType → Message → Prop :=
  Throughout S fun u n => n.Valid S u ∧ EntriesComplete env keep n

/-- The strings in it survive, too. -/
def Retrievable : MessageType → Message → Prop :=
  Throughout S fun u n => n.Valid S u ∧ EntriesComplete env keep n ∧ n.Unmarked S u

end

variable {env : Environment} {S : Schema} {keep : Bool} {t : MessageType} {i k : Nat}
  {f g : FieldInfo} {m M : Message}

namespace Ordinary

/-- A field is one of a message or one of the two of a map entry. -/
theorem field_cases {f : FieldInfo} (hf : f ∈ (S.propertyOrdering t).fields) :
    (∃ t', f ∈ (S.message t').fields) ∨
      f.presence = .mapEntry ∧ (∀ h isList, f.type ≠ .custom h isList) ∧ f.type.isMap = false := by
  cases t with
  | named t => exact .inl ⟨t, hf⟩
  | mapEntry key value =>
    simp only [Schema.propertyOrdering, MessageDescriptor.mapEntry, List.mem_cons, List.not_mem_nil,
      or_false] at hf
    right
    rcases hf with rfl | rfl
    · exact ⟨rfl, by simp, rfl⟩
    · exact ⟨rfl, by cases value <;> simp [PropertyType.ofMapValue], by cases value <;> rfl⟩

/-- No field of an ordinary schema is required. -/
theorem required_eq_false (hS : Ordinary S) (hf : f ∈ (S.propertyOrdering t).fields) :
    f.fieldFlags.required = false := by
  rcases field_cases hf with ⟨t', hmem⟩ | ⟨hpresence, -⟩
  · have hpresence := hS.required t' f hmem
    unfold FieldInfo.fieldFlags
    split <;> simp_all [FieldInfo.getFlagForType, FieldInfo.collectFieldFlags]
  · simp [FieldInfo.fieldFlags, hpresence, FieldInfo.getFlagForType]

/-- An enumeration without presence begins with zero. -/
theorem enum_zero (hS : Ordinary S) (hf : f ∈ (S.propertyOrdering t).fields) {e : Nat}
    (htype : f.type = .enum e) (himplicit : f.presence = .implicit) : S.firstEnumerator e = 0 := by
  rcases field_cases hf with ⟨t', hmem⟩ | ⟨hpresence, -⟩
  · exact hS.enums t' f hmem e htype himplicit
  · rw [hpresence] at himplicit
    cases himplicit

/-- A map has a key type that maps may have. -/
theorem map_key (hS : Ordinary S) (hf : f ∈ (S.propertyOrdering t).fields) {key : ScalarKind}
    {value : MapValue} (htype : f.type = .hash key value) : key.isMapKey = true := by
  rcases field_cases hf with ⟨t', hmem⟩ | ⟨-, -, hmap⟩
  · exact hS.keys t' f hmem key value htype
  · rw [htype] at hmap
    cases hmap

/-- No field of an ordinary schema has a type of its own. -/
theorem not_custom (hS : Ordinary S) (hf : f ∈ (S.propertyOrdering t).fields) (h : Nat)
    (isList : Bool) : f.type ≠ .custom h isList := by
  rcases field_cases hf with ⟨t', hmem⟩ | ⟨-, hcustom, -⟩
  · exact hS.custom t' f hmem h isList
  · exact hcustom h isList

/-- In an ordinary schema no required field can be missing. -/
theorem requiredPresent (hS : Ordinary S) (t : MessageType) (xs : List WireField) :
    RequiredPresent S t xs := by
  intro f hf hrequired
  rw [hS.required_eq_false hf] at hrequired
  cases hrequired

end Ordinary

/-- A property of another type is no value of a type with a handler. -/
theorem property_ne_custom (hcustom : ∀ h isList, f.type ≠ .custom h isList) (hm : m.Valid S t)
    (hf : (S.propertyOrdering t).fields[i]? = some f) (k : Nat) (content : List Message) :
    m.messageProperty i f ≠ .custom k content := by
  intro hv
  rcases hm.fields i f hf with hvalue | ⟨hnull, -⟩
  · rw [hv] at hvalue
    generalize f.type = type at hvalue hcustom
    cases hvalue
    exact hcustom _ _ rfl
  · rw [hv] at hnull
    cases hnull

namespace StandsFor

variable {e : Scalar × Value} {entry : Message} {key : ScalarKind} {value : MapValue}

/-- The entry's value has the value type of the map. -/
theorem isOf (h : StandsFor e entry) (hvalue : e.2.IsOf (.ofMapValue value)) :
    (entry.member (.field 1)).IsOf (.ofMapValue value) := by
  rcases h.value with heq | hequal
  · rwa [heq]
  · exact isOf_of_sameScalar hequal hvalue

/-- The properties of an entry object are the key and the value. -/
theorem property (h : StandsFor e entry)
    (hg : (S.propertyOrdering (.mapEntry key value)).fields[k]? = some g) :
    entry.messageProperty k g = .scalar e.1 ∧ g.type = .scalar key ∨
      entry.messageProperty k g = entry.member (.field 1) ∧ g.type = .ofMapValue value := by
  match k with
  | 0 =>
    cases hg
    exact .inl ⟨h.key, rfl⟩
  | 1 =>
    cases hg
    exact .inr ⟨rfl, rfl⟩
  | _ + 2 => cases hg

/-- An entry object that stands for an entry of the map is valid. -/
theorem valid (h : StandsFor e entry) (hkey : e.1.1 = key)
    (hvalue : e.2.IsOf (.ofMapValue value)) : entry.Valid S (.mapEntry key value) := by
  refine ⟨fun k g hg => .inl ?_, by simp [h.unknown], by simp [h.unknown]⟩
  rcases h.property hg with ⟨hproperty, htype⟩ | ⟨hproperty, htype⟩
  · rw [hproperty, htype]
    obtain ⟨⟨k', v⟩, u⟩ := e
    obtain rfl : k' = key := hkey
    exact .scalar v
  · rw [hproperty, htype]
    exact h.isOf hvalue

/-- An entry object has no unknown entries. -/
theorem entriesComplete (h : StandsFor e entry) : EntriesComplete env keep entry := by
  simp [EntriesComplete, h.unknown]

/-- The value of an entry object is a message only if the one of the entry is. -/
theorem cases (h : StandsFor e entry) (hvalue : e.2.IsOf (.ofMapValue value))
    (hg : (S.propertyOrdering (.mapEntry key value)).fields[k]? = some g) :
    (∃ v, entry.messageProperty k g = .scalar v) ∨
      (∃ a b, entry.messageProperty k g = .enumerator a b) ∨
      ∃ t' m', entry.messageProperty k g = .message t' m' ∧ e.2 = .message t' m' := by
  have hcontent := h.isOf hvalue
  rcases h.property hg with ⟨hproperty, -⟩ | ⟨hproperty, -⟩
  · exact .inl ⟨e.1, hproperty⟩
  · have hmessage {t' : Nat} {m' : Message} (hmember : entry.member (.field 1) = .message t' m') :
        e.2 = .message t' m' := by
      rcases h.value with heq | hequal
      · rw [← heq, hmember]
      · rw [hmember] at hequal
        cases hequal
    rw [hproperty]
    generalize entry.member (.field 1) = v at hcontent hmessage
    cases value with
    | scalar k' =>
      cases hcontent with
      | scalar v => exact .inl ⟨_, rfl⟩
    | enum a =>
      cases hcontent with
      | enum b => exact .inr (.inl ⟨a, b, rfl⟩)
    | message t' =>
      cases hcontent with
      | message m' => exact .inr (.inr ⟨t', m', rfl, hmessage rfl⟩)

/-- The strings of an entry object are the ones of the entry. -/
theorem unmarked (h : StandsFor e entry) (hvalue : e.2.IsOf (.ofMapValue value))
    {entries : List (Scalar × Value)} (he : e ∈ entries)
    (htexts : ∀ text ∈ (Value.hash entries).texts, startsWithMark text = false) :
    entry.Unmarked S (.mapEntry key value) := by
  intro k g hg text htext
  refine htexts text (List.mem_flatMap.mpr ⟨e, he, List.mem_append.mpr ?_⟩)
  rcases h.property hg with ⟨hproperty, -⟩ | ⟨hproperty, -⟩
  · rw [hproperty] at htext
    exact .inl htext
  · have hsame : (entry.member (.field 1)).texts = e.2.texts := by
      rcases h.value with heq | hequal
      · rw [heq]
      · exact Value.texts_of_sameScalar hequal
    have hscalar : e.2.texts = e.2.scalarTexts := by
      generalize e.2 = u at hvalue
      cases value <;> cases hvalue <;> rfl
    rw [hproperty, hsame, hscalar] at htext
    exact .inr htext

end StandsFor

namespace Throughout

variable {P : MessageType → Message → Prop}

/-- What holds throughout a message holds of the message. -/
theorem here (h : Throughout S P t m) : P t m := h t m (.self t m)

/-- What holds throughout a message holds of the message in each of its fields. -/
theorem message (h : Throughout S P t m) (hf : (S.propertyOrdering t).fields[i]? = some f) {t' : Nat}
    {m' : Message} (hv : m.messageProperty i f = .message t' m') : Throughout S P (.named t') m' :=
  fun u n hholds => h u n (.message hf hv hholds)

/-- What holds throughout a message holds of the messages in each of its lists. -/
theorem element (h : Throughout S P t m) (hf : (S.propertyOrdering t).fields[i]? = some f) {t' : Nat}
    {ms : List Message} (hv : m.messageProperty i f = .messages t' ms) {m' : Message} (hm : m' ∈ ms) :
    Throughout S P (.named t') m' :=
  fun u n hholds => h u n (.element hf hv hm hholds)

/-- What holds of the entry object and of the messages of the map holds throughout the object. -/
theorem standsFor (h : Throughout S P t m) (hf : (S.propertyOrdering t).fields[i]? = some f)
    {key : ScalarKind} {value : MapValue} {entries : List (Scalar × Value)}
    (hv : m.messageProperty i f = .hash entries) {e : Scalar × Value} (he : e ∈ entries)
    (hvalue : e.2.IsOf (.ofMapValue value)) {entry : Message} (hstands : StandsFor e entry)
    (hentry : P (.mapEntry key value) entry) : Throughout S P (.mapEntry key value) entry := by
  intro u n hholds
  cases hholds with
  | self => exact hentry
  | message hg hmessage hholds =>
    obtain ⟨v, hproperty⟩ | ⟨a, b, hproperty⟩ | ⟨t', m', hproperty, he'⟩ := hstands.cases hvalue hg
    all_goals
      rw [hproperty] at hmessage
      cases hmessage
    rw [show e = (e.1, e.2) from rfl, he'] at he
    exact h u n (.value hf hv he hholds)
  | element hg hmessages hm hholds =>
    obtain ⟨v, hproperty⟩ | ⟨a, b, hproperty⟩ | ⟨t', m', hproperty, -⟩ := hstands.cases hvalue hg
    all_goals
      rw [hproperty] at hmessages
      cases hmessages
  | value hg hhash hm hholds =>
    obtain ⟨v, hproperty⟩ | ⟨a, b, hproperty⟩ | ⟨t', m', hproperty, -⟩ := hstands.cases hvalue hg
    all_goals
      rw [hproperty] at hhash
      cases hhash

end Throughout

/-- A message that can be recovered is valid. -/
theorem Recoverable.valid (h : Recoverable env S keep t m) : m.Valid S t :=
  (Throughout.here h).1

/-- The entry object is a message of its type whenever it is written. -/
theorem Recoverable.standsFor (h : Recoverable env S keep t m)
    (hf : (S.propertyOrdering t).fields[i]? = some f) {key : ScalarKind} {value : MapValue}
    {entries : List (Scalar × Value)} (hv : m.messageProperty i f = .hash entries)
    {e : Scalar × Value} (he : e ∈ entries) (hkey : e.1.1 = key)
    (hvalue : e.2.IsOf (.ofMapValue value)) {entry : Message} (hstands : StandsFor e entry) :
    Recoverable env S keep (.mapEntry key value) entry :=
  Throughout.standsFor h hf hv he hvalue hstands
    ⟨hstands.valid hkey hvalue, hstands.entriesComplete⟩

/-! ## One property -/

section

variable {order : HashOrder} {types : List Nat}
  {writes : List Nat → FieldInfo → MessageType → Message → WireField → Prop} {xs : List WireField}

variable (S) in
/-- The messages that a property is written as. An entry of a map is written through an object that
stands for it. -/
inductive Part (f : FieldInfo) : Value → MessageType → Message → Prop where
  | message {t' : Nat} (m : Message) : Part f (.message t' m) (.named t') m
  | element {t' : Nat} {ms : List Message} {m : Message} (hm : m ∈ ms) :
      Part f (.messages t' ms) (.named t') m
  | entry {key : ScalarKind} {value : MapValue} {entries : List (Scalar × Value)}
      {e : Scalar × Value} {entry : Message} (htype : f.type = .hash key value) (he : e ∈ entries)
      (hstands : StandsFor e entry) : Part f (.hash entries) (.mapEntry key value) entry
  | proxy {k : Nat} {content : List Message} {handler : Handler} {object : Message}
      (hhandler : S.findHandler k = some handler) (hobject : object ∈ handler.objects content) :
      Part f (.custom k content) handler.proxy object

variable (S) in
/-- What a field and its property need besides, so that the property is found again: a required
message is set, an enumeration begins with zero where zeros are left out, no string starts with
U+FEFF, and a handler makes the same value again, which its setter tells from a new one. -/
structure Regains (f : FieldInfo) (value : Value) : Prop where
  required : f.fieldFlags.required = true → value ≠ .null
  texts : ∀ text ∈ value.texts, startsWithMark text = false
  enums : ∀ e, f.type = .enum e → f.presence = .implicit → S.firstEnumerator e = 0
  keys : ∀ key value, f.type = .hash key value → key.isMapKey = true
  setter : SetterKeeps S value
  handlers : ∀ k content, value = .custom k content → ∃ handler, S.findHandler k = some handler ∧
    GivesBack S handler content ∧ (f.presence ≠ .implicit → handler.objects content ≠ [])

/-- The property of a field is found again if the messages it is written as are. -/
theorem rebuilt_property (hm : m.Valid S t) (hf : (S.propertyOrdering t).fields[i]? = some f)
    (hregains : Regains S f (m.messageProperty i f))
    (hwrites : ∀ u n x, Part S f (m.messageProperty i f) u n → writes types f u n x →
      x.bytes.length ≤ maxSerializeMessageSizeLimit →
      RebuildsField env S keep f.fieldNumber u n x)
    (h : WritesProperty S order writes types f (m.messageProperty i f) xs)
    (hsize : ∀ x ∈ xs, x.bytes.length ≤ maxSerializeMessageSizeLimit) :
    Rebuilt env S keep f (m.messageProperty i f) xs := by
  have hsize' : ∀ x ∈ xs, x.bytes.length ≤ maxByteArraySize := fun x hx => by
    have hle := hsize x hx
    unfold maxSerializeMessageSizeLimit at hle
    unfold maxByteArraySize
    omega
  have hall {u : MessageType} {ns : List Message} (hns : List.Forall₂ (writes types f u) ns xs)
      (hparts : ∀ n ∈ ns, Part S f (m.messageProperty i f) u n) :
      List.Forall₂ (RebuildsField env S keep f.fieldNumber u) ns xs := by
    refine List.forall₂_iff_zip.mpr ⟨hns.length_eq, fun {n x} hzip => ?_⟩
    have hzipped := List.of_mem_zip hzip
    exact hwrites u n x (hparts n hzipped.1) (List.forall₂_zip hns hzip) (hsize x hzipped.2)
  rcases hm.fields i f hf with hvalue | ⟨hnull, hunset⟩
  · generalize m.messageProperty i f = v at h hvalue hregains hwrites hall
    generalize htype : f.type = type at hvalue
    cases hvalue with
    | scalar v =>
      have hrebuilt := @rebuilt_scalar env S keep _ _ _ _ _ _ _ hf _ htype v h hsize'
      rwa [Scalar.unmarked_of_texts hregains.texts] at hrebuilt
    | list vs =>
      have hrebuilt := @rebuilt_list env S keep _ _ _ _ _ _ _ hf _ htype vs h hsize'
      rwa [Scalar.map_unmarked_of_texts hregains.texts] at hrebuilt
    | enum v => exact rebuilt_enum hf htype (hregains.enums _ htype) h hsize'
    | enumList vs => exact rebuilt_enumList hf htype h hsize'
    | message m' =>
      simp only [WritesProperty, htype] at h
      obtain ⟨x, rfl, hx⟩ := h
      exact rebuilt_message hf htype (hwrites _ _ _ (.message m') hx (hsize x List.mem_cons_self))
        (hsize x List.mem_cons_self)
    | messageList ms =>
      simp only [WritesProperty, htype] at h
      exact rebuilt_messageList hf htype (hall h fun m' hm' => .element hm') hsize
    | hash hkeys hnodup hvalues =>
      rename_i key value entries
      simp only [WritesProperty, htype] at h
      refine rebuilt_hash order hf (hregains.keys key value htype) htype
        (fun e he => ⟨hkeys e he, hvalues e he⟩) hnodup (hall h fun entry hentry => ?_) hsize
      have hstands : List.Forall₂ StandsFor (order.entries entries)
          (entryObjects (S.defaultMessage (.mapEntry key value)) (order.entries entries)) :=
        standsFor_entryObjects _ rfl
      obtain ⟨e, he, hentry⟩ := exists_of_forall₂ hstands hentry
      exact .entry htype ((order.entries_perm entries).mem_iff.mp he) hentry
    | custom content =>
      rename_i k isList
      obtain ⟨handler, hhandler, hback, hpresence⟩ := hregains.handlers k content rfl
      have hobjects : List.Forall₂ (writes types f handler.proxy) (handler.objects content) xs := by
        simpa [WritesProperty, htype, WritesPlain, fieldFlags_isEnum, PropertyType.isEnum,
          scalarFields, integratedFields, Schema.handlerOf, hhandler] using h
      exact rebuilt_custom hf htype hhandler hback hpresence
        (hall hobjects fun object hobject => .proxy hhandler hobject) hsize
  · rw [hnull] at h ⊢
    have hrequired : f.fieldFlags.required = false :=
      Bool.eq_false_iff.mpr fun hrequired => hregains.required hrequired hnull
    obtain rfl : xs = [] := by
      unfold WritesProperty at h
      split at h <;> simp_all
    unfold FieldInfo.mayBeUnset at hunset
    refine rebuilt_null (fun hpresence => by simp [hpresence] at hunset) ?_
    unfold FieldInfo.storedDefault
    cases hpresence : f.presence <;> cases htype : f.type <;>
      simp_all [PropertyType.isPureMessage, PropertyType.initialValue]

end

/-! ## All properties -/

/-- A property reads the member behind it only. -/
theorem messageProperty_of_member {m m' : Message}
    (h : m.member (f.memberAt i) = m'.member (f.memberAt i)) :
    m.messageProperty i f = m'.messageProperty i f := by
  unfold FieldInfo.memberAt at h
  unfold Message.messageProperty Message.oneofState
  cases hpresence : f.presence <;> simp_all

/-- Whether a field is fresh depends on its own member only. -/
theorem isFresh_of_member {m m' : Message}
    (h : m'.member (f.memberAt i) = m.member (f.memberAt i)) (hfresh : IsFresh S m i f) :
    IsFresh S m' i f := by
  unfold FieldInfo.memberAt at h
  unfold IsFresh Message.oneofState at *
  cases hpresence : f.presence <;> simp_all

/-- Only one member of a oneof has a value. -/
theorem messageProperty_eq_null {j : Nat} (hfj : f.presence = .oneof j) (hgj : g.presence = .oneof j)
    (hne : f.fieldNumber ≠ g.fieldNumber) (h : m.messageProperty i f ≠ .null) :
    m.messageProperty k g = .null := by
  simp only [Message.messageProperty, hfj, hgj] at h ⊢
  unfold holdsField at h ⊢
  split at h
  · rename_i hholds
    simp only [Bool.and_eq_true, beq_iff_eq] at hholds
    rw [hholds.1.1]
    simp [hne]
  · exact absurd rfl h

/-- Different fields of a message have different numbers. -/
theorem fieldNumber_ne {d : MessageDescriptor} (hf : d.fields[i]? = some f)
    (hg : d.fields[k]? = some g) (hki : k ≠ i) : f.fieldNumber ≠ g.fieldNumber := by
  intro heq
  have hi := indexOfFieldNumber_of_getElem? hf
  rw [heq, indexOfFieldNumber_of_getElem? hg] at hi
  exact hki (Option.some.inj hi)

variable (S t m) in
/-- The properties up to a field are found again, and the others have not been touched. -/
structure Rebuilding (n : Nat) (p : Draft) (M : Message) : Prop where
  store : storeCachedValue S t p.cache p.message = ({}, M, true)
  index : ∀ k, p.cache.index = some k → k < n
  found : ∀ k g, k < n → (S.propertyOrdering t).fields[k]? = some g →
    (m.messageProperty k g).Same S (M.messageProperty k g)
  fresh : ∀ k g, n ≤ k → (S.propertyOrdering t).fields[k]? = some g →
    IsFresh S M k g ∨ m.messageProperty k g = .null ∧ M.messageProperty k g = .null
  unknown : M.unknownEntries = []

/-- A blank message is the beginning of a rebuilding. -/
theorem Blank.rebuilding {start : Message} (h : Blank S t start) :
    Rebuilding S t m 0 ⟨{}, start⟩ start :=
  ⟨rfl, fun _ hk => (by cases hk), fun _ _ hk => (by omega), fun k g _ hg => .inl (h.fresh k g hg),
    h.unknown⟩

/-- A value for which something was written is not null. -/
theorem Rebuilt.ne_null {xs : List WireField} {value : Value}
    (hf : (S.propertyOrdering t).fields[i]? = some f) (h : Rebuilt env S keep f value xs)
    (hne : xs ≠ []) : value ≠ .null := by
  rintro rfl
  have hfits := (S.propertyOrdering t).presence_fits f (List.mem_of_getElem? hf)
  obtain ⟨_, _, w, -, -, hw, -, -, hsame⟩ :=
    h.turned hne _ ((isFresh_defaultMessage hf).isInitial hfits)
  have hnull := isNull_of_isOf hw
  cases hsame
  cases hnull

/-- A fresh field reads as its stored default. -/
theorem IsFresh.messageProperty (h : IsFresh S M i f) (hpresence : f.presence ≠ .mapEntry) :
    M.messageProperty i f = f.storedDefault S := by
  unfold IsFresh at h
  unfold Message.messageProperty
  cases hp : f.presence with
  | oneof j =>
    simp only [hp] at h ⊢
    simp [h, holdsField, FieldInfo.storedDefault, hp]
  | mapEntry => exact absurd hp hpresence
  | _ =>
    simp only [hp] at h ⊢
    exact h

/-- A conversion gives no value where there was none. -/
theorem isNull_of_convert {v w : Value} (h : S.convert f.type v = some w) (hw : w.isNull = false) :
    v.isNull = false := by
  cases v with
  | null =>
    have hnull : S.convert f.type .null = some .null := by
      cases f.type <;> rfl
    rw [hnull] at h
    cases h
    exact hw
  | _ => rfl

/-- Behind a property that has a value the others are as they were, or other members of its oneof
without a value. -/
theorem other_property {M M' : Message} (hf : (S.propertyOrdering t).fields[i]? = some f)
    (hg : (S.propertyOrdering t).fields[k]? = some g) (hki : k ≠ i)
    (hsame : SameElsewhere i f M' M) (hm : m.messageProperty i f ≠ .null)
    (hM : M'.messageProperty i f ≠ .null) :
    M'.member (g.memberAt k) = M.member (g.memberAt k) ∨
      m.messageProperty k g = .null ∧ M'.messageProperty k g = .null := by
  by_cases hmember : g.memberAt k = f.memberAt i
  · have honeof : ∃ j, g.presence = .oneof j ∧ f.presence = .oneof j := by
      by_contra hnone
      exact memberAt_ne hki (fun j hgj hfj => hnone ⟨j, hgj, hfj⟩) hmember.symm
    obtain ⟨j, hgj, hfj⟩ := honeof
    have hnumber := fieldNumber_ne hf hg hki
    exact .inr ⟨messageProperty_eq_null hfj hgj hnumber hm, messageProperty_eq_null hfj hgj hnumber hM⟩
  · exact .inl (hsame.1 _ hmember)

/-- Nothing was written for the next property. -/
theorem Rebuilding.elided {n : Nat} {p : Draft} (h : Rebuilding S t m n p M)
    (hf : (S.propertyOrdering t).fields[n]? = some f) (hpresence : f.presence ≠ .mapEntry)
    (hsame : (m.messageProperty n f).Same S (f.storedDefault S)) : Rebuilding S t m (n + 1) p M := by
  refine ⟨h.store, fun k hk => Nat.lt_succ_of_lt (h.index k hk), fun k g hk hg => ?_,
    fun k g hk hg => h.fresh k g (by omega) hg, h.unknown⟩
  by_cases hkn : k = n
  · subst hkn
    rw [hf] at hg
    cases hg
    rcases h.fresh k f (Nat.le_refl k) hf with hfresh | ⟨hnull, hnull'⟩
    · rwa [hfresh.messageProperty hpresence]
    · rw [hnull, hnull']
      exact .null
  · exact h.found k g (by omega) hg

/-- The next property is in the cache, and what will be stored of it is the same. -/
theorem Rebuilding.stored {n : Nat} {p : Draft} {m' : Message} {entry : Option Message}
    {v w : Value} (h : Rebuilding S t m n p M) (hf : (S.propertyOrdering t).fields[n]? = some f)
    (hcustom : SetterKeeps S (m.messageProperty n f)) (hvalue : m.messageProperty n f ≠ .null)
    (helsewhere : SameElsewhere n f m' M) (hplain : f.type.isPureMessage = false → m' = M)
    (hnumbers : ∀ j, (m'.oneofState j).1 = (M.oneofState j).1)
    (hconvert : S.convert f.type v = some w) (hw : w.IsOf f.type) (hms : ∀ t, w ≠ .messages t [])
    (hes : w ≠ .hash []) (hsame : (m.messageProperty n f).Same S w) :
    ∃ M', Rebuilding S t m (n + 1)
      ⟨{ index := some n, propertyValue := v, mapEntry := entry }, m'⟩ M' := by
  have hfresh : IsFresh S M n f :=
    (h.fresh n f (Nat.le_refl n) hf).resolve_right fun hnull => hvalue hnull.1
  have hkeeps : SetterKeeps S w := by
    rintro k content rfl
    generalize m.messageProperty n f = u at hsame hcustom
    cases hsame
    exact hcustom k content rfl
  obtain ⟨M', hset, hM, hproperty⟩ :=
    exists_stored hfresh hf helsewhere hplain hnumbers hconvert hw hkeeps hms hes
  have hfound : (m.messageProperty n f).Same S (M'.messageProperty n f) := by
    rcases hproperty with heq | hequal
    · rwa [heq]
    · exact same_of_sameScalar_right hequal hsame
  have hvalue' : M'.messageProperty n f ≠ .null := by
    intro hnull
    rw [hnull] at hfound
    generalize m.messageProperty n f = u at hfound hvalue
    cases hfound
    exact hvalue rfl
  have hother (k : Nat) (g : FieldInfo) (hkn : k ≠ n)
      (hg : (S.propertyOrdering t).fields[k]? = some g) :=
    other_property hf hg hkn hM hvalue hvalue'
  refine ⟨M', ?_, ?_, fun k g hk hg => ?_, fun k g hk hg => ?_, hM.2.trans h.unknown⟩
  · simp only [storeCachedValue, isNull_of_convert hconvert (isNull_of_isOf hw), hf, hset]
    rfl
  · rintro k hk
    cases hk
    exact Nat.lt_succ_self n
  · by_cases hkn : k = n
    · subst hkn
      rw [hf] at hg
      cases hg
      exact hfound
    · rcases hother k g hkn hg with hmember | ⟨hnull, hnull'⟩
      · rw [messageProperty_of_member hmember]
        exact h.found k g (by omega) hg
      · rw [hnull, hnull']
        exact .null
  · rcases hother k g (by omega) hg with hmember | hnull
    · rcases h.fresh k g (by omega) hg with hkfresh | ⟨hnull, hnull'⟩
      · exact .inl (isFresh_of_member hmember hkfresh)
      · exact .inr ⟨hnull, by rw [messageProperty_of_member hmember, hnull']⟩
    · exact .inr hnull

/-- The fields of the next property. -/
theorem Rebuilding.next {n : Nat} {p : Draft} {xs : List WireField}
    (h : Rebuilding S t m n p M) (hcustom : SetterKeeps S (m.messageProperty n f))
    (hf : (S.propertyOrdering t).fields[n]? = some f)
    (hrebuilt : Rebuilt env S keep f (m.messageProperty n f) xs) :
    ∃ q M', Decodes env S keep t xs p q ∧ Rebuilding S t m (n + 1) q M' := by
  have hfits := (S.propertyOrdering t).presence_fits f (List.mem_of_getElem? hf)
  by_cases hne : xs = []
  · subst hne
    obtain ⟨hpresence, hsame⟩ := hrebuilt.elided rfl
    exact ⟨p, M, .nil t p, h.elided hf hpresence hsame⟩
  · have hvalue := hrebuilt.ne_null hf hne
    have hfresh : IsFresh S M n f :=
      (h.fresh n f (Nat.le_refl n) hf).resolve_right fun hnull => hvalue hnull.1
    obtain ⟨entry, v, w, hturns, hconvert, hw, hms, hes, hsame⟩ :=
      hrebuilt.turned hne _ (hfresh.isInitial hfits)
    obtain ⟨m', hdecodes, helsewhere, hplain, hnumbers⟩ := hturns.decodes hne h.store
      (fun hindex => Nat.lt_irrefl n (h.index n hindex)) hf hrebuilt.fields
    obtain ⟨M', hnext⟩ := h.stored hf hcustom hvalue helsewhere hplain hnumbers hconvert hw hms hes
      hsame
    exact ⟨_, M', hdecodes, hnext⟩

/-- The fields of all properties from one on. -/
theorem Rebuilding.run (fields : List FieldInfo) {n : Nat} {p : Draft}
    {parts : List (List WireField)} (h : Rebuilding S t m n p M)
    (hfields : (S.propertyOrdering t).fields.drop n = fields)
    (hcustom : ∀ i f, (S.propertyOrdering t).fields[i]? = some f →
      SetterKeeps S (m.messageProperty i f))
    (hparts : List.Forall₂ (fun (q : FieldInfo × Nat) part =>
      Rebuilt env S keep q.1 (m.messageProperty q.2 q.1) part) (fields.zipIdx n) parts) :
    ∃ k q M', (S.propertyOrdering t).fields.length ≤ k ∧ Decodes env S keep t parts.flatten p q ∧
      Rebuilding S t m k q M' := by
  induction fields generalizing n p M parts with
  | nil =>
    cases hparts
    exact ⟨n, p, M, List.drop_eq_nil_iff.mp hfields, .nil t p, h⟩
  | cons f fields ih =>
    rw [List.zipIdx_cons] at hparts
    cases hparts with
    | cons hpart hparts =>
      have hf : (S.propertyOrdering t).fields[n]? = some f := by
        rw [← List.head?_drop, hfields]
        rfl
      obtain ⟨q, M', hdecodes, hnext⟩ := h.next (hcustom n f hf) hf hpart
      obtain ⟨k, q', M'', hk, hrest, hlast⟩ := ih hnext
        (by rw [← List.drop_drop, hfields]; rfl) hparts
      exact ⟨k, q', M'', hk, hdecodes.append hrest, hlast⟩

/-! ## Unknown fields -/

/-- The entries of one number, behind those of the numbers before. -/
theorem storeUnknownEntry_append {groups : List (Nat × List Bytes)} {n : Nat}
    (hn : n ∉ groups.map Prod.fst) (entries : List Bytes) (entry : Bytes) :
    Message.storeUnknownEntry.append entry n (groups ++ if entries = [] then [] else [(n, entries)]) =
      groups ++ [(n, entries ++ [entry])] := by
  induction groups with
  | nil => cases entries <;> simp [Message.storeUnknownEntry.append]
  | cons g groups ih =>
    obtain ⟨n', entries'⟩ := g
    simp only [List.map_cons, List.mem_cons, not_or] at hn
    rw [List.cons_append, Message.storeUnknownEntry.append, if_neg fun heq => hn.1 heq.symm,
      ih hn.2, List.cons_append]

/-- Keeping the entries of one number adds one group with them and changes no member. -/
theorem foldl_keptMessage_group {groups : List (Nat × List Bytes)} {n : Nat}
    (hn : n ∉ groups.map Prod.fst) (zs : List WireField) (hzs : ∀ x ∈ zs, x.fieldNumber = n)
    (entries : List Bytes) {M : Message}
    (hM : M.unknownEntries = groups ++ if entries = [] then [] else [(n, entries)]) :
    (zs.foldl (keptMessage true) M).member = M.member ∧
      (zs.foldl (keptMessage true) M).unknownEntries =
        groups ++ if entries ++ zs.map WireField.bytes = [] then []
          else [(n, entries ++ zs.map WireField.bytes)] := by
  induction zs generalizing entries M with
  | nil => simpa using hM
  | cons x zs ih =>
    have hx := hzs x List.mem_cons_self
    have hkept : (keptMessage true M x).unknownEntries = groups ++
        if entries ++ [x.bytes] = [] then [] else [(n, entries ++ [x.bytes])] := by
      rw [if_neg (by simp)]
      simp only [keptMessage, if_true, Message.storeUnknownEntry, hx, hM]
      exact storeUnknownEntry_append hn entries x.bytes
    obtain ⟨hmember, hentries⟩ := ih (fun y hy => hzs y (List.mem_cons_of_mem _ hy)) _ hkept
    rw [List.foldl_cons]
    refine ⟨hmember.trans (member_keptMessage true M x), ?_⟩
    rw [hentries, List.append_assoc]
    rfl

/-- Entries that are bytes of complete fields are the bytes of a list of such fields. -/
theorem exists_fields {n : Nat} {entries : List Bytes}
    (h : ∀ entry ∈ entries, ∃ x : WireField, x.Complete env ∧ x.fieldNumber = n ∧ x.bytes = entry) :
    ∃ zs : List WireField, zs.map WireField.bytes = entries ∧
      ∀ x ∈ zs, x.Complete env ∧ x.fieldNumber = n := by
  induction entries with
  | nil => exact ⟨[], rfl, by simp⟩
  | cons entry entries ih =>
    obtain ⟨x, hx, hnumber, rfl⟩ := h entry List.mem_cons_self
    obtain ⟨zs, rfl, hzs⟩ := ih fun e he => h e (List.mem_cons_of_mem _ he)
    exact ⟨x :: zs, rfl, List.forall_mem_cons.mpr ⟨⟨hx, hnumber⟩, hzs⟩⟩

/-- From the bytes that were kept of unknown fields the decoder keeps the same ones. -/
theorem exists_kept (groups before : List (Nat × List Bytes))
    (hnodup : ((before ++ groups).map Prod.fst).Nodup)
    (hgroups : ∀ g ∈ groups, g.2 ≠ [] ∧ (S.propertyOrdering t).indexOfFieldNumber g.1 = none ∧
      ∀ entry ∈ g.2, ∃ x : WireField, x.Complete env ∧ x.fieldNumber = g.1 ∧ x.bytes = entry) :
    ∃ zs : List WireField, (zs.flatMap WireField.bytes = groups.flatMap fun g => g.2.flatten) ∧
      (∀ x ∈ zs, x.Complete env ∧ (S.propertyOrdering t).indexOfFieldNumber x.fieldNumber = none) ∧
      ∀ M : Message, M.unknownEntries = before →
        (zs.foldl (keptMessage true) M).member = M.member ∧
        (zs.foldl (keptMessage true) M).unknownEntries = before ++ groups := by
  induction groups generalizing before with
  | nil => exact ⟨[], rfl, by simp, fun M hM => ⟨rfl, by simpa using hM⟩⟩
  | cons g groups ih =>
    obtain ⟨n, entries⟩ := g
    obtain ⟨hne, hindex, hentries⟩ := hgroups _ List.mem_cons_self
    obtain ⟨zs, rfl, hzs⟩ := exists_fields hentries
    have hn : n ∉ before.map Prod.fst := by
      rw [List.map_append, List.map_cons, List.nodup_append] at hnodup
      exact fun hmem => hnodup.2.2 _ hmem _ List.mem_cons_self rfl
    obtain ⟨zs', hbytes, hzs', hall⟩ := ih (before ++ [(n, zs.map WireField.bytes)])
      (by simpa using hnodup) fun g hg => hgroups g (List.mem_cons_of_mem _ hg)
    refine ⟨zs ++ zs', ?_, fun x hx => ?_, fun M hM => ?_⟩
    · rw [List.flatMap_append, hbytes, List.flatMap_cons, List.flatMap_def]
    · rcases List.mem_append.mp hx with hx | hx
      · exact ⟨(hzs x hx).1, by rw [(hzs x hx).2]; exact hindex⟩
      · exact hzs' x hx
    · obtain ⟨hmember, hkept⟩ := foldl_keptMessage_group hn zs (fun x hx => (hzs x hx).2) []
        (show M.unknownEntries = _ by simpa using hM)
      rw [List.nil_append, if_neg hne] at hkept
      obtain ⟨hmember', hkept'⟩ := hall _ hkept
      rw [List.foldl_append, hmember', hmember, hkept', List.append_assoc]
      exact ⟨rfl, rfl⟩

/-- Fields that the type does not have are kept or dropped and nothing else. -/
theorem decodes_unknown (zs : List WireField)
    (h : ∀ x ∈ zs, x.Complete env ∧ (S.propertyOrdering t).indexOfFieldNumber x.fieldNumber = none)
    (p : Draft) :
    Decodes env S keep t zs p ⟨p.cache, zs.foldl (keptMessage keep) p.message⟩ := by
  induction zs generalizing p with
  | nil => exact .nil t p
  | cons x zs ih =>
    obtain ⟨hx, hindex⟩ := h x List.mem_cons_self
    exact .unknown hx hindex (ih (fun y hy => h y (List.mem_cons_of_mem _ hy)) _)

/-- Keeping unknown fields does not change what has been written so far. -/
theorem Draft.Written.foldl_kept (zs : List WireField) {p q : Draft} (h : p.Written S t q) :
    Draft.Written S t ⟨p.cache, zs.foldl (keptMessage keep) p.message⟩
      ⟨q.cache, zs.foldl (keptMessage keep) q.message⟩ := by
  induction zs generalizing p q with
  | nil => exact h
  | cons x zs ih => exact ih (h.kept x)

/-- The unknown fields of a message, in the order in which they are written. -/
theorem exists_unknownFields (order : HashOrder) (hm : m.Valid S t)
    (hcomplete : EntriesComplete env keep m) :
    ∃ zs : List WireField, zs.flatMap WireField.bytes = unknownBytes order keep m ∧
      (∀ x ∈ zs, x.Complete env ∧ (S.propertyOrdering t).indexOfFieldNumber x.fieldNumber = none) ∧
      ∀ M : Message, M.unknownEntries = [] →
        (zs.foldl (keptMessage keep) M).member = M.member ∧
        m.unknownEntries.Perm (zs.foldl (keptMessage keep) M).unknownEntries := by
  have hperm := order.unknownEntries_perm m.unknownEntries
  cases keep with
  | false =>
    have hnone : m.unknownEntries = [] :=
      List.eq_nil_iff_forall_not_mem.mpr fun g hg => Bool.false_ne_true (hcomplete g hg).1
    exact ⟨[], rfl, by simp, fun M hM => ⟨rfl, by rw [hnone, List.foldl_nil, hM]⟩⟩
  | true =>
    obtain ⟨zs, hbytes, hzs, hkept⟩ := @exists_kept env S t
      (order.unknownEntries m.unknownEntries) []
      ((hperm.map Prod.fst).nodup_iff.mpr hm.groups) fun g hg => by
        have hmem := hperm.mem_iff.mp hg
        exact ⟨(hm.unknown g hmem).1, (hm.unknown g hmem).2, (hcomplete g hmem).2⟩
    refine ⟨zs, hbytes, hzs, fun M hM => ?_⟩
    obtain ⟨hmember, hentries⟩ := hkept M hM
    exact ⟨hmember, by rw [hentries]; exact hperm.symm⟩

/-- The unknown bytes of a message that can be recovered are complete fields, which are kept in the
same groups when they are read. -/
theorem Recoverable.exists_unknown (order : HashOrder) (h : Recoverable env S keep t m) :
    ∃ zs : List WireField, zs.flatMap WireField.bytes = unknownBytes order keep m ∧
      (∀ x ∈ zs, x.Complete env ∧ (S.propertyOrdering t).indexOfFieldNumber x.fieldNumber = none) ∧
      ∀ M : Message, M.unknownEntries = [] →
        (zs.foldl (keptMessage keep) M).member = M.member ∧
        m.unknownEntries.Perm (zs.foldl (keptMessage keep) M).unknownEntries :=
  exists_unknownFields order h.valid (h t m (.self t m)).2

/-! ## Messages -/

variable (env S keep) in
/-- Messages that are found again, together with all messages they are written as. -/
structure Restorable (order : HashOrder) (P : MessageType → Message → Prop) : Prop where
  valid : ∀ {t m}, P t m → m.Valid S t ∧ EntriesComplete env keep m
  regains : ∀ {t m i f}, P t m → (S.propertyOrdering t).fields[i]? = some f →
    Regains S f (m.messageProperty i f)
  written : ∀ {t m i f writes types xs}, P t m → (S.propertyOrdering t).fields[i]? = some f →
    f.fieldFlags.required = true →
    WritesProperty S order writes types f (m.messageProperty i f) xs → xs ≠ []
  parts : ∀ {t m i f u n}, P t m → (S.propertyOrdering t).fields[i]? = some f →
    Part S f (m.messageProperty i f) u n → P u n

/-- A message that was written is found again. -/
theorem Restorable.rebuilds {order : HashOrder} {P : MessageType → Message → Prop}
    (hP : Restorable env S keep order P) (fuel : Nat) {types : List Nat} {xs : List WireField}
    (h : Written S order keep fuel types t m xs) (hm : P t m)
    (hsize : (xs.flatMap WireField.bytes ++ unknownBytes order keep m).length ≤
      maxSerializeMessageSizeLimit) :
    Rebuilds env S keep t m (xs.flatMap WireField.bytes ++ unknownBytes order keep m) := by
  induction fuel generalizing types t m xs with
  | zero => cases h
  | succ fuel ih =>
    obtain ⟨parts, rfl, hparts⟩ := h
    obtain ⟨hvalid, hcomplete⟩ := hP.valid hm
    have hboth : List.Forall₂ (fun (q : FieldInfo × Nat) part =>
        Rebuilt env S keep q.1 (m.messageProperty q.2 q.1) part ∧
          (q.1.fieldFlags.required = true → part ≠ []))
        ((S.propertyOrdering t).fields.zipIdx 0) parts := by
      refine List.forall₂_iff_zip.mpr ⟨hparts.length_eq, fun {q part} hzip => ?_⟩
      obtain ⟨f, i⟩ := q
      obtain ⟨hq, hpart⟩ := List.of_mem_zip hzip
      have hf := List.mk_mem_zipIdx_iff_getElem?.mp hq
      have hproperty := List.forall₂_zip hparts hzip
      refine ⟨rebuilt_property hvalid hf (hP.regains hm hf) ?_ hproperty fun x hx => ?_,
        fun hrequired => hP.written hm hf hrequired hproperty⟩
      · rintro u n x hn ⟨ys, hys, rfl⟩ hxsize
        refine ⟨_, rfl, ih hys (hP.parts hm hf hn) ?_⟩
        simp only [messageField, WireField.bytes, List.length_append] at hxsize ⊢
        omega
      · refine Nat.le_trans ?_ hsize
        rw [List.length_append]
        exact Nat.le_add_right_of_le
          ((List.sublist_flatten_of_mem (List.mem_map_of_mem
            (List.mem_flatten_of_mem hpart hx))).length_le)
    obtain ⟨us, hbytes, hus, hkept⟩ := exists_unknownFields order hvalid hcomplete
    refine ⟨parts.flatten ++ us, by rw [List.flatMap_append, hbytes], fun f hf hrequired => ?_,
      fun start hstart => ?_⟩
    · obtain ⟨i, hi⟩ := List.getElem?_of_mem hf
      obtain ⟨part, hpart, hrebuilt, hne⟩ := exists_of_forall₂ hboth.flip
        (List.mk_mem_zipIdx_iff_getElem?.mpr hi)
      obtain ⟨x, hx⟩ := List.exists_mem_of_ne_nil part (hne hrequired)
      exact ⟨x, List.mem_append_left us (List.mem_flatten_of_mem hpart hx), (hrebuilt.fields x hx).2⟩
    · obtain ⟨k, q, M, hk, hdecodes, hlast⟩ :=
        hstart.rebuilding.run _ rfl (fun i f hf => (hP.regains hm hf).setter)
          (hboth.imp fun _ _ h => h.1)
      have hwritten : Draft.Written S t q ⟨{}, M⟩ := ⟨rfl, hlast.store⟩
      obtain ⟨hmember, hentries⟩ := hkept M hlast.unknown
      refine ⟨_, {}, us.foldl (keptMessage keep) M, hdecodes.append (decodes_unknown us hus q),
        (hwritten.foldl_kept us).store, fun i f hf => ?_, hentries⟩
      have hfound := hlast.found i f
        (Nat.lt_of_lt_of_le (List.getElem?_eq_some_iff.mp hf).1 hk) hf
      rwa [← messageProperty_of_member (congrFun hmember (f.memberAt i))] at hfound

/-- Nothing else is asked of messages of an ordinary schema. -/
theorem Ordinary.restorable (hS : Ordinary S) (order : HashOrder) :
    Restorable env S keep order (Retrievable env S keep) where
  valid h := ⟨(Throughout.here h).1, (Throughout.here h).2.1⟩
  regains h hf := by
    have hmem := List.mem_of_getElem? hf
    obtain ⟨hvalid, -, hunmarked⟩ := Throughout.here h
    have hcustom := property_ne_custom (hS.not_custom hmem) hvalid hf
    exact ⟨by simp [hS.required_eq_false hmem], hunmarked _ _ hf,
      fun e htype => hS.enum_zero hmem htype, fun key value htype => hS.map_key hmem htype,
      fun k content hv => absurd hv (hcustom k content),
      fun k content hv => absurd hv (hcustom k content)⟩
  written _ hf hrequired := by
    rw [hS.required_eq_false (List.mem_of_getElem? hf)] at hrequired
    cases hrequired
  parts {t m i f u n} h hf hpart := by
    obtain ⟨hvalid, -, hunmarked⟩ := Throughout.here h
    have htexts := hunmarked i f hf
    have hproperty := hvalid.fields i f hf
    generalize hv : m.messageProperty i f = v at hpart htexts hproperty
    cases hpart with
    | message m' => exact Throughout.message h hf hv
    | element hm => exact Throughout.element h hf hv hm
    | entry htype he hstands =>
      rw [htype] at hproperty
      rcases hproperty with hvalue | ⟨hnull, -⟩
      · cases hvalue with
        | hash hkeys _ hvalues =>
          exact Throughout.standsFor h hf hv he (hvalues _ he) hstands
            ⟨hstands.valid (hkeys _ he) (hvalues _ he), hstands.entriesComplete,
              hstands.unmarked (hvalues _ he) he htexts⟩
      · cases hnull
    | proxy => exact absurd hv (property_ne_custom (hS.not_custom (List.mem_of_getElem? hf)) hvalid hf _ _)

/-! ## The serializer -/

/-- What the serializer writes for a message it decodes into a message of the same content. -/
def RoundTrips (env : Environment) (order : HashOrder) (S : Schema) (d : SerializerPrivate)
    (t : MessageType) (m : Message) : Prop :=
  ∀ fuel d' data, d.serializeMessage order S fuel t m = (d', some data) →
    d'.base.deserializer.lastError = .none → ∀ fuel', data.length < fuel' →
      ∃ d'' m', d'.deserializeMessage env S fuel' t data = (d'', m', .returned true) ∧ m.Same S t m'

/-- Output without an error is what was written for the message. -/
theorem written_of_serializeMessage {order : HashOrder} {fuel : Nat} {d d' : SerializerPrivate}
    {data : Bytes} (h : d.serializeMessage order S fuel t m = (d', some data))
    (herror : d'.base.deserializer.lastError = .none) :
    d'.preserveUnknownFields = d.preserveUnknownFields ∧
      d'.base.effectiveMaximumInputSize = d.base.effectiveMaximumInputSize ∧
      data.length ≤ maxSerializeMessageSizeLimit ∧
      ∃ types xs, Written S order d.preserveUnknownFields fuel types t m xs ∧
        data = xs.flatMap WireField.bytes ++ unknownBytes order d.preserveUnknownFields m := by
  unfold SerializerPrivate.serializeMessage at h
  simp only at h
  split at h
  · cases h
  · rename_i x hx
    obtain ⟨xs, hxs, happends⟩ := serializeMessage_appends fuel hx
    have hresult : x.state.result = xs.flatMap WireField.bytes := happends.result
    split at h
    · cases h
      cases herror
    · rename_i hsize
      cases h
      refine ⟨rfl, rfl, Nat.le_of_not_lt hsize, _, xs, hxs, ?_⟩
      rw [unknownBytes_eq, SerializerImpl.append, hresult]
      rfl

/-- A message is found again if it is restorable. -/
theorem Restorable.foundAgain {order : HashOrder} {P : MessageType → Message → Prop}
    {d : SerializerPrivate} (hP : Restorable env S d.preserveUnknownFields order P)
    (hlimit : d.base.effectiveMaximumInputSize = maxSerializeMessageSizeLimit) (hm : P t m) :
    RoundTrips env order S d t m := by
  intro fuel d' data h herror fuel' hfuel
  obtain ⟨hkeep, hlimit', hsize, types, xs, hxs, rfl⟩ := written_of_serializeMessage h herror
  obtain ⟨zs, hbytes, hrequired, hzs⟩ := hP.rebuilds fuel hxs hm hsize
  obtain ⟨r, c, m', hdecodes, hstore, hsame⟩ := hzs _ (blank_defaultMessage S t)
  rw [← hbytes] at hsize hfuel ⊢
  rw [← hkeep] at hdecodes
  obtain ⟨s', ok, hresult, hok⟩ := @Decodes.deserialize env S t d'.base zs r c m' hdecodes hstore
    (by rw [hlimit', hlimit]; exact hsize) fuel' hfuel
  have heq := @SerializerPrivate.deserializeMessage_eq env S fuel' d' t (zs.flatMap WireField.bytes)
  rw [hresult, hok.mpr hrequired] at heq
  exact ⟨_, m', Prod.ext rfl (Prod.mk.inj heq).2, hsame⟩

/-- The serializer finds a message again if everything that was kept of unknown fields in it are
complete fields, which are written, and no string in it starts with U+FEFF. -/
theorem roundTrips (env : Environment) (order : HashOrder) (S : Schema) (hS : Ordinary S)
    (d : SerializerPrivate)
    (hlimit : d.base.effectiveMaximumInputSize = maxSerializeMessageSizeLimit) (t : MessageType)
    (m : Message) (hm : m.IsOf S t)
    (hentries : ∀ u n, Message.Holds S t m u n → EntriesComplete env d.preserveUnknownFields n)
    (htexts : ∀ u n, Message.Holds S t m u n → n.Unmarked S u) :
    RoundTrips env order S d t m := by
  have hretrievable : Retrievable env S d.preserveUnknownFields t m :=
    fun u n hholds => ⟨hm u n hholds, hentries u n hholds, htexts u n hholds⟩
  exact (hS.restorable order).foundAgain hlimit hretrievable

/-- A message type with an optional number. -/
def readingSchema : Schema where
  message
    | 0 => ⟨"Reading", [
        { fieldNumber := 1, jsonName := "offset", type := .scalar .int64, presence := .optional }],
        by decide, by decide, by decide⟩
    | _ => .withoutFields "Empty"
  enumKeys _ := []
  findHandler _ := none
  typeName _ := ""

/-- The number and a field that the type does not have. -/
def keptReading : Message :=
  .mk ((readingSchema.defaultMessage (.named 0)).setMember (.field 0)
    (.scalar ⟨.int64, (7 : BitVec 64)⟩)).member [(128, [[0x82, 0x08, 0x01, 0x00]])]

/-- The sample schema is ordinary. -/
theorem ordinary_reading : Ordinary readingSchema := by
  have hfield {t : Nat} {f : FieldInfo} (hf : f ∈ (readingSchema.message t).fields) :
      f.type = .scalar .int64 ∧ f.presence = .optional := by
    match t with
    | 0 =>
      obtain rfl := List.mem_singleton.mp hf
      exact ⟨rfl, rfl⟩
    | _ + 1 => cases hf
  constructor
  · intro t f hf
    simp [(hfield hf).2]
  · intro t f hf
    simp [(hfield hf).1]
  · intro t f hf
    simp [(hfield hf).1]
  · intro t f hf
    simp [(hfield hf).1]

/-- The sample message holds no other message. -/
theorem holds_keptReading {u : MessageType} {n : Message}
    (h : Message.Holds readingSchema (.named 0) keptReading u n) : u = .named 0 ∧ n = keptReading := by
  have hproperty {i : Nat} {f : FieldInfo}
      (hf : ((readingSchema.propertyOrdering (.named 0)).fields)[i]? = some f) :
      keptReading.messageProperty i f = .scalar ⟨.int64, (7 : BitVec 64)⟩ := by
    match i with
    | 0 =>
      cases hf
      rfl
    | _ + 1 => cases hf
  cases h with
  | self => exact ⟨rfl, rfl⟩
  | message hf hv =>
    rw [hproperty hf] at hv
    cases hv
  | element hf hv =>
    rw [hproperty hf] at hv
    cases hv
  | value hf hv =>
    rw [hproperty hf] at hv
    cases hv

/-- A reading with an unknown field of its own is given back. -/
theorem roundTrips_keptReading :
    RoundTrips nullTerminated .ofInsertion readingSchema (.new {}) (.named 0) keptReading := by
  refine roundTrips nullTerminated .ofInsertion readingSchema ordinary_reading (.new {}) rfl (.named 0)
    keptReading (fun u n h => ?_) (fun u n h => ?_) fun u n h i f hf => ?_
  · obtain ⟨rfl, rfl⟩ := holds_keptReading h
    refine ⟨fun i f hf => .inl ?_, by decide, by decide⟩
    match i with
    | 0 =>
      cases hf
      exact @Value.IsOf.scalar .int64 (7 : BitVec 64)
    | _ + 1 => cases hf
  · obtain ⟨rfl, rfl⟩ := holds_keptReading h
    intro g hg
    obtain rfl := List.mem_singleton.mp hg
    refine ⟨rfl, fun entry hentry => ?_⟩
    obtain rfl := List.mem_singleton.mp hentry
    exact ⟨⟨128, .lengthDelimited, [0x82, 0x08], [0x01] ++ [0x00]⟩,
      ⟨by decide, by decide, ⟨1026, by decide, by decide⟩,
        .lengthDelimited [0x01] [0x00] (by decide) (by decide)⟩, rfl, rfl⟩
  · obtain ⟨rfl, rfl⟩ := holds_keptReading h
    match i with
    | 0 =>
      cases hf
      exact fun text htext => absurd htext List.not_mem_nil
    | _ + 1 => cases hf

/-- A field the type does not have, whose length leads back behind the first byte of its header. -/
def backwardInput : Bytes :=
  [0x82, 0x08, 0xF5, 0xFF, 0xFF, 0xFF, 0xFF, 0xFF, 0xFF, 0xFF, 0xFF, 0x01]

/-- What a serializer decodes it into. -/
def backwardReading : Message :=
  ((SerializerPrivate.new {}).deserializeMessage nullTerminated readingSchema 20 (.named 0)
    backwardInput).2.1

/-- What it writes for this message: the number, and the byte that was kept of the field. -/
def backwardOutput : Bytes :=
  [0x08, 0xF5, 0xFF, 0xFF, 0xFF, 0xFF, 0xFF, 0xFF, 0xFF, 0xFF, 0x01, 0x82]

/-- A message type with a text. -/
def noteSchema : Schema where
  message
    | 0 => ⟨"Note", [{ fieldNumber := 1, jsonName := "text", type := .scalar .string }],
        by decide, by decide, by decide⟩
    | _ => .withoutFields "Empty"
  enumKeys _ := []
  findHandler _ := none
  typeName _ := ""

/-- A note whose text starts with U+FEFF. -/
def markedNote : Message :=
  (noteSchema.defaultMessage (.named 0)).setMember (.field 0) (.scalar ⟨.string, "\uFEFFa"⟩)

/-- What a serializer writes for it. -/
def markedOutput : Bytes := [0x0A, 0x04, 0xEF, 0xBB, 0xBF, 0x61]

/-- The text of the note comes back as `a`. -/
theorem not_found_marked :
    ¬RoundTrips nullTerminated .ofInsertion noteSchema (.new {}) (.named 0) markedNote := by
  intro h
  let written := (SerializerPrivate.new {}).serializeMessage .ofInsertion noteSchema 2 (.named 0)
    markedNote
  have hwritten : written.2 = some markedOutput := by decide +kernel
  obtain ⟨d'', m', hresult, hsame⟩ :=
    h 2 written.1 markedOutput (Prod.ext rfl hwritten) (by decide +kernel) 20 (by decide)
  have hread : ((written.1.deserializeMessage nullTerminated noteSchema 20 (.named 0)
      markedOutput).2.1.member (.field 0)).sameScalar (.scalar ⟨.string, "a"⟩) = true := by
    decide +kernel
  rw [hresult] at hread
  have hfield : (Value.scalar ⟨.string, "\uFEFFa"⟩).Same noteSchema (m'.member (.field 0)) :=
    hsame.fields 0 _ rfl
  rw [hfield.eq_of_text] at hread
  exact absurd hread (by decide +kernel)

/-- An accepted input is written again as one that is refused, and a text loses its first
character. -/
theorem not_roundTrips_backward :
    (((SerializerPrivate.new {}).deserializeMessage nullTerminated readingSchema 20 (.named 0)
      backwardInput).2.2 = .returned true ∧
      ¬RoundTrips nullTerminated .ofInsertion readingSchema (.new {}) (.named 0) backwardReading) ∧
    ¬RoundTrips nullTerminated .ofInsertion noteSchema (.new {}) (.named 0) markedNote := by
  refine ⟨⟨by decide +kernel, fun h => ?_⟩, not_found_marked⟩
  let written := (SerializerPrivate.new {}).serializeMessage .ofInsertion readingSchema 2 (.named 0)
    backwardReading
  have hwritten : written.2 = some backwardOutput := by decide +kernel
  obtain ⟨d'', m', hresult, -⟩ :=
    h 2 written.1 backwardOutput (Prod.ext rfl hwritten) (by decide +kernel) 20 (by decide)
  have hrefused : (written.1.deserializeMessage nullTerminated readingSchema 20 (.named 0)
      backwardOutput).2.2 = .returned false := by decide +kernel
  rw [hresult] at hrefused
  cases hrefused

end QtGrpc.Protobuf.Binary
