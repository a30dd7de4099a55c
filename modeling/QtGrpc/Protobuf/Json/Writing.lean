import QtGrpc.Protobuf.Json.Restored

/-!
# Objects that the JSON encoder writes

The encoder inserts a value for every property that is not the default, under the name of its field.
The decoder reads each of these values again: the items of a list were appended one by one, and the
entries of a map inserted under the texts of their keys.
-/

namespace QtGrpc.Protobuf.Json

open Binary (StandsFor)

section

variable (env : JsonEnvironment) (customIn : CustomDeserializers) (customOut : CustomSerializers)
  (S : Schema)

/-- A property that consists of messages of this type. -/
def Nests : PropertyType → Nat → Prop
  | .message t, u | .messageList t, u | .hash _ (.message t), u => t = u
  | _, _ => False

/-- The messages that the fields of a type consist of have fields themselves. -/
def NestsFields (t : MessageType) : Prop :=
  ∀ f ∈ (S.propertyOrdering t).fields, ∀ u, Nests f.type u → (S.message u).fields ≠ []

/-- A schema whose messages JSON can tell apart: by the names of their fields, by fields that nested
messages have, and by the names of enumerators. -/
structure Regular : Prop where
  names : ∀ t, TellsApart env (S.message t)
  custom : ∀ t, ∀ f ∈ (S.message t).fields, ∀ h isList, f.type ≠ .custom h isList
  keys : ∀ t, ∀ f ∈ (S.message t).fields, ∀ key value, f.type = .hash key value →
    key.isMapKey = true
  nested : ∀ t, NestsFields S (.named t)
  enumKeys : ∀ e, ((S.enumKeys e).map Prod.fst).Nodup
  enumNames : ∀ e, "" ∉ (S.enumKeys e).map Prod.fst

/-- A scalar that JSON keeps, or no scalar at all. -/
def IsKeptScalar : Value → Prop
  | .scalar v => isKept v.1 v.2 = true
  | _ => True

/-- A scalar that JSON keeps, an enumerator that has a name, or neither. -/
def IsExpressible : Value → Prop
  | .scalar v => isKept v.1 v.2 = true
  | .enumerator e v => (S.valueToKey e v).isSome = true
  | _ => True

/-- A property of scalars that JSON keeps and enumerators that have names. -/
def ConsistsOfExpressible : Value → Prop
  | .scalars k vs => ∀ v ∈ vs, isKept k v = true
  | .enumerators e vs => ∀ v ∈ vs, (S.valueToKey e v).isSome = true
  | .hash entries => ∀ e ∈ entries, IsExpressible S e.2
  | value => IsExpressible S value

/-- What a registered serializer makes of a message, the registered deserializer reads again. -/
def GivesBack (t : MessageType) (m : Message) : Prop :=
  ∀ serializer, findCustomJsonSerializer customOut t = some serializer →
    ∃ deserializer json m', findCustomJsonDeserializer customIn t = some deserializer ∧
      serializer m = some json ∧ isSimple json = true ∧
      deserializer (S.defaultMessage t) json = (m', true) ∧ m.Same S t m'

/-- A message without unknown fields, whose required messages are set and whose values JSON keeps. -/
structure Expressible (t : MessageType) (m : Message) : Prop where
  valid : m.Valid S t
  unknown : m.unknownEntries = []
  required : ∀ i f, (S.propertyOrdering t).fields[i]? = some f → f.presence = .required →
    m.messageProperty i f ≠ .null
  values : ∀ i f, (S.propertyOrdering t).fields[i]? = some f →
    ConsistsOfExpressible S (m.messageProperty i f)
  custom : GivesBack customIn customOut S t m

/-- The same of a message and the messages within it. -/
def FullyExpressible (t : MessageType) (m : Message) : Prop :=
  ∀ u n, Message.Holds S t m u n → Expressible customIn customOut S u n

end

/-- Only the value of one key changed. -/
structure Sets (x y : SerializerImpl) (key : String) (json : Option JsonValue) : Prop where
  lookup : y.result.lookup key = json
  others : ∀ key', key' ≠ key → y.result.lookup key' = x.result.lookup key'
  state : y.state = x.state

section

variable {env : JsonEnvironment} {customIn : CustomDeserializers} {customOut : CustomSerializers}
  {S : Schema} {t : MessageType} {f : FieldInfo} {m : Message} {i : Nat}

/-! ## Schemas -/

/-- A name without underscores is its own JSON name. -/
theorem convert_eq_self (l : List Char) (h : '_' ∉ l) :
    convertJsonKeyToJsonName.convert env false l = l := by
  induction l with
  | nil => rfl
  | cons c l ih =>
    rw [List.mem_cons, not_or] at h
    simp [convertJsonKeyToJsonName.convert, Ne.symm h.1, ih h.2]

/-- Different names without underscores are told apart. -/
theorem tellsApart_of_nodup {d : MessageDescriptor} (hnodup : (d.fields.map (·.jsonName)).Nodup)
    (h : ∀ f ∈ d.fields, '_' ∉ f.jsonName.toList) : TellsApart env d := by
  intro i j f g hf hg hmatches
  have hconvert : convertJsonKeyToJsonName env g.jsonName = g.jsonName := by
    rw [convertJsonKeyToJsonName, convert_eq_self _ (h g (List.mem_of_getElem? hg)),
      String.ofList_toList]
  rw [keyMatches, hconvert, Bool.or_self, beq_iff_eq] at hmatches
  have hi : i < (d.fields.map (·.jsonName)).length := by
    rw [List.length_map]
    exact (List.getElem?_eq_some_iff.mp hf).1
  have hsame : (d.fields.map (·.jsonName))[i]? = (d.fields.map (·.jsonName))[j]? := by
    rw [List.getElem?_map, List.getElem?_map, hf, hg, Option.map_some, Option.map_some, hmatches]
  exact (List.getElem?_inj hi hnodup).mp hsame

/-- The two fields of an entry are told apart. -/
theorem tellsApart_mapEntry (env : JsonEnvironment) (key : ScalarKind) (value : MapValue) :
    TellsApart env (S.propertyOrdering (.mapEntry key value)) := by
  apply tellsApart_of_nodup
  · show ["key", "value"].Nodup
    decide
  · show ∀ f ∈ (MessageDescriptor.mapEntry key value).fields, _
    simp [MessageDescriptor.mapEntry]

namespace Regular

/-- A regular schema tells the fields of each message apart by their JSON names. -/
theorem tellsApart (hS : Regular env S) (t : MessageType) : TellsApart env (S.propertyOrdering t) := by
  cases t with
  | named t => exact hS.names t
  | mapEntry key value => exact tellsApart_mapEntry env key value

/-- No field of a regular schema has a type of its own. -/
theorem not_custom (hS : Regular env S) (hf : f ∈ (S.propertyOrdering t).fields) (h : Nat)
    (isList : Bool) : f.type ≠ .custom h isList := by
  rcases Binary.Ordinary.field_cases hf with ⟨t', hmem⟩ | ⟨-, hcustom, -⟩
  · exact hS.custom t' f hmem h isList
  · exact hcustom h isList

/-- A map has a key type that maps may have. -/
theorem map_key (hS : Regular env S) (hf : f ∈ (S.propertyOrdering t).fields) {key : ScalarKind}
    {value : MapValue} (htype : f.type = .hash key value) : key.isMapKey = true := by
  rcases Binary.Ordinary.field_cases hf with ⟨t', hmem⟩ | ⟨-, -, hmap⟩
  · exact hS.keys t' f hmem key value htype
  · rw [htype] at hmap
    cases hmap

/-- An enumerator is found again by its name. -/
theorem keyToValue_of_valueToKey (hS : Regular env S) {e : Nat} {v : BitVec 32} {key : String}
    (h : S.valueToKey e v = some key) : S.keyToValue e key = some v ∧ key ≠ "" := by
  obtain ⟨p, hp, rfl⟩ := Option.map_eq_some_iff.mp h
  have hmem := List.mem_of_find?_eq_some hp
  have hvalue : p.2 = v := by simpa using List.find?_some hp
  refine ⟨?_, fun hempty => hS.enumNames e ?_⟩
  · obtain ⟨before, behind, hsplit⟩ := List.append_of_mem hmem
    have hnodup := hS.enumKeys e
    rw [hsplit, List.map_append, List.map_cons, List.nodup_append] at hnodup
    refine List.lookup_eq_some_iff.mpr ⟨before, behind, by rw [hsplit, ← hvalue], fun q hq => ?_⟩
    simpa using (hnodup.2.2 _ (List.mem_map_of_mem hq) _ List.mem_cons_self).symm
  · rw [← hempty]
    exact List.mem_map_of_mem hmem

end Regular

/-! ## Entries of maps -/

/-- Only zeros become zero without their sign. -/
theorem eq_zero_of_shiftLeft32 {a : BitVec 32} (h : a <<< 1 = 0) (hne : a ≠ 0x80000000) : a = 0 := by
  bv_omega

/-- Only zero and the sign bit vanish when shifted by one. -/
theorem eq_zero_of_shiftLeft64 {a : BitVec 64} (h : a <<< 1 = 0) (hne : a ≠ 0x8000000000000000) :
    a = 0 := by
  bv_omega

/-- Equal numbers that JSON keeps are the same. -/
theorem eq_of_floatEq {w : Nat} {nan negZero a b : BitVec w} {isNaN : BitVec w → Bool}
    (hzero : ∀ c : BitVec w, c <<< 1 = 0 → c ≠ negZero → c = 0) (hnan : isNaN nan = true)
    (ha : isKeptFloat nan negZero isNaN a = true) (hb : isKeptFloat nan negZero isNaN b = true)
    (h : floatEq isNaN a b = true) : a = b := by
  simp only [floatEq, Bool.and_eq_true, Bool.not_eq_eq_eq_not, Bool.not_true, Bool.or_eq_true,
    decide_eq_true_eq, beq_iff_eq] at h
  obtain ⟨⟨hanan, hbnan⟩, rfl | ⟨hazero, hbzero⟩⟩ := h
  · rfl
  · have hnonzero {c : BitVec w} (hc : isKeptFloat nan negZero isNaN c = true)
        (hcnan : isNaN c = false) : c ≠ negZero := by
      rintro rfl
      simp only [isKeptFloat, bne_self_eq_false, Bool.and_false, Bool.or_false, beq_iff_eq] at hc
      rw [hc, hnan] at hcnan
      cases hcnan
    rw [hzero a hazero (hnonzero ha hanan), hzero b hbzero (hnonzero hb hbnan)]

/-- Among the scalars that JSON keeps, equal ones are the same. -/
theorem eq_of_isEqual_of_isKept {k : ScalarKind} {a b : k.Carrier} (ha : isKept k a = true)
    (hb : isKept k b = true) (h : k.isEqual a b = true) : a = b := by
  cases k with
  | float => exact eq_of_floatEq (fun _ => eq_zero_of_shiftLeft32) (by decide) ha hb h
  | double => exact eq_of_floatEq (fun _ => eq_zero_of_shiftLeft64) (by decide) ha hb h
  | _ => exact of_decide_eq_true h

/-- Equal values that JSON keeps are the same. -/
theorem eq_of_sameScalar {u v : Value} (hu : IsKeptScalar u) (hv : IsKeptScalar v)
    (h : u.sameScalar v = true) : u = v := by
  cases u with
  | scalar a =>
    cases v with
    | scalar b =>
      obtain ⟨k, a⟩ := a
      obtain ⟨k', b⟩ := b
      obtain ⟨hk, hequal⟩ := Scalar.isEqual_iff.mp h
      obtain rfl : k = k' := hk
      rw [show a = b from eq_of_isEqual_of_isKept hu hv hequal]
    | _ => cases h
  | enumerator e a =>
    cases v with
    | enumerator e' b =>
      simp only [Value.sameScalar, Bool.and_eq_true, beq_iff_eq] at h
      rw [h.1, h.2]
    | _ => cases h
  | _ => cases v <;> cases h

/-- The entry object while it holds an entry of a map. -/
structure EntryOf (e : Scalar × Value) (entry : Message) : Prop where
  key : entry.member (.field 0) = .scalar e.1
  value : entry.member (.field 1) = e.2
  unknown : entry.unknownEntries = []

/-- The entry object of an entry stands for it. -/
theorem EntryOf.standsFor {e : Scalar × Value} {entry : Message} (h : EntryOf e entry) :
    StandsFor e entry :=
  ⟨h.key, .inl h.value, h.unknown⟩

/-- An expressible value is a scalar that JSON keeps, if it is one. -/
theorem IsExpressible.isKeptScalar {v : Value} (h : IsExpressible S v) : IsKeptScalar v := by
  cases v <;> first | exact h | trivial

/-- The old value of the entry object is kept only if it is the new one. -/
theorem entryOf_nextEntry {entry : Message} (hunknown : entry.unknownEntries = [])
    (hold : IsKeptScalar (entry.member (.field 1))) {e : Scalar × Value} (hnew : IsKeptScalar e.2) :
    EntryOf e (entry.nextEntry e.1 e.2) := by
  have hne : Member.field 1 ≠ Member.field 0 := by simp
  have hmember : (entry.setMember (.field 0) (.scalar e.1)).member (.field 1) =
      entry.member (.field 1) := Message.member_setMember_of_ne _ _ hne
  unfold Message.nextEntry
  simp only [hmember]
  split
  · rename_i hsame
    exact ⟨Message.member_setMember_self _ _ _, hmember.trans (eq_of_sameScalar hold hnew hsame),
      hunknown⟩
  · refine ⟨?_, Message.member_setMember_self _ _ _, hunknown⟩
    rw [Message.member_setMember_of_ne _ _ hne.symm, Message.member_setMember_self]

/-- What is within an entry of a map of a message is within the message. -/
theorem holds_of_entry {key : ScalarKind} {value : MapValue} {entries : List (Scalar × Value)}
    {e : Scalar × Value} {entry n : Message} {u : MessageType}
    (hf : (S.propertyOrdering t).fields[i]? = some f) (hv : m.messageProperty i f = .hash entries)
    (he : e ∈ entries) (hof : e.2.IsOf (.ofMapValue value)) (hentry : EntryOf e entry)
    (h : Message.Holds S (.mapEntry key value) entry u n) :
    u = .mapEntry key value ∧ n = entry ∨ Message.Holds S t m u n := by
  have hproperty {k : Nat} {g : FieldInfo}
      (hg : (S.propertyOrdering (.mapEntry key value)).fields[k]? = some g) :
      entry.messageProperty k g = .scalar e.1 ∨ entry.messageProperty k g = e.2 := by
    match k with
    | 0 =>
      cases hg
      exact .inl hentry.key
    | 1 =>
      cases hg
      exact .inr hentry.value
    | _ + 2 => cases hg
  cases h with
  | self => exact .inl ⟨rfl, rfl⟩
  | message hg hmessage hholds =>
    rcases hproperty hg with heq | heq
    · rw [heq] at hmessage
      cases hmessage
    · rename_i t' _ m' _
      have hmem : (e.1, .message t' m') ∈ entries := by
        rw [← hmessage, heq]
        exact he
      exact .inr (.value hf hv hmem hholds)
  | element hg hmessages hm hholds =>
    rcases hproperty hg with heq | heq
    · rw [heq] at hmessages
      cases hmessages
    · rw [← heq, hmessages] at hof
      cases value <;> cases hof
  | value hg hhash hm hholds =>
    rcases hproperty hg with heq | heq
    · rw [heq] at hhash
      cases hhash
    · rw [← heq, hhash] at hof
      cases value <;> cases hof

/-- Every value of a key type is one that JSON keeps. -/
theorem isKept_of_isMapKey {k : ScalarKind} (hk : k.isMapKey = true) (v : k.Carrier) :
    isKept k v = true := by
  cases k with
  | float | double | bytes => cases hk
  | _ => rfl

/-- The entry object is a message that JSON keeps whenever it is written. -/
theorem FullyExpressible.entry (h : FullyExpressible customIn customOut S t m)
    (hf : (S.propertyOrdering t).fields[i]? = some f) {key : ScalarKind} {value : MapValue}
    {entries : List (Scalar × Value)} (hv : m.messageProperty i f = .hash entries)
    {e : Scalar × Value} (he : e ∈ entries) (hkey : e.1.1 = key)
    (hmapKey : key.isMapKey = true) (hof : e.2.IsOf (.ofMapValue value))
    (hexpressible : IsExpressible S e.2) {entry : Message} (hentry : EntryOf e entry) :
    FullyExpressible customIn customOut S (.mapEntry key value) entry := by
  intro u n hholds
  rcases holds_of_entry hf hv he hof hentry hholds with ⟨rfl, rfl⟩ | hheld
  · have hproperty {k : Nat} {g : FieldInfo}
        (hg : (S.propertyOrdering (.mapEntry key value)).fields[k]? = some g) :
        g.presence = .mapEntry ∧ (n.messageProperty k g = .scalar e.1 ∧ g.type = .scalar key ∨
          n.messageProperty k g = e.2 ∧ g.type = .ofMapValue value) := by
      match k with
      | 0 =>
        cases hg
        exact ⟨rfl, .inl ⟨hentry.key, rfl⟩⟩
      | 1 =>
        cases hg
        exact ⟨rfl, .inr ⟨hentry.value, rfl⟩⟩
      | _ + 2 => cases hg
    refine ⟨⟨fun k g hg => .inl ?_, by simp [hentry.unknown], by simp [hentry.unknown]⟩,
      hentry.unknown, fun k g hg hrequired => ?_, fun k g hg => ?_, fun serializer hfind => ?_⟩
    · rcases (hproperty hg).2 with ⟨heq, htype⟩ | ⟨heq, htype⟩
      · rw [heq, htype]
        obtain ⟨⟨k', v⟩, w⟩ := e
        obtain rfl : k' = key := hkey
        exact .scalar v
      · rw [heq, htype]
        exact hof
    · rw [(hproperty hg).1] at hrequired
      cases hrequired
    · rcases (hproperty hg).2 with ⟨heq, -⟩ | ⟨heq, -⟩
      · rw [heq]
        exact isKept_of_isMapKey (by rw [hkey]; exact hmapKey) e.1.2
      · rw [heq]
        generalize e.2 = w at hof hexpressible
        cases value <;> cases hof <;> exact hexpressible
    · cases hfind
  · exact h u n hheld

/-! ## Nested messages -/

variable {order : HashOrder} {fuel : Nat} {x y : SerializerBase SerializerImpl}

variable (env customIn customOut S order fuel) in
/-- With this fuel the encoder writes a message into an object from which it is read. -/
def WritesNested : Prop :=
  ∀ (t : MessageType) (m : Message) (x y : SerializerBase SerializerImpl), NestsFields S t →
    FullyExpressible customIn customOut S t m → x.state.result = [] →
    serializeMessage (serializerFormat env S customOut) S order fuel t m x = some y →
    RestoresAll env customIn S t m y.state.result ∧ y.state.state = x.state.state

/-- What becomes of a message property, or of the next item of a list. -/
theorem writes_message (hS : Regular env S)
    (hnested : WritesNested env customIn customOut S order fuel) {u : Nat}
    (hfields : (S.message u).fields ≠ []) (hm : FullyExpressible customIn customOut S (.named u) m)
    (hmap : f.type.isMap = false)
    (h : serializeMessageField (serializerFormat env S customOut)
      (serializeMessage (serializerFormat env S customOut) S order fuel) (.named u) m f x = some y) :
    ∃ json, ReadsMessage env customIn S u m json ∧
      y.state = { x.state with
        result := if f.fieldFlags.repeated then appendToArray x.state.result f.jsonName json
          else x.state.result.insert f.jsonName json } := by
  have hmapFlag : f.fieldFlags.isMap = false := by rw [fieldFlags_isMap, hmap]
  unfold serializeMessageField at h
  cases hcustom : customOut u with
  | some serializer =>
    obtain ⟨deserializer, json, m', hfind, hjson, hsimple, hread, hsame⟩ :=
      (hm _ m (.self _ m)).custom serializer hcustom
    simp only [serializerFormat, interceptSerializedField, findCustomJsonSerializer, hcustom,
      Option.map_some, hjson, Option.some.injEq] at h
    refine ⟨json, .custom hsimple hfind hread hsame, ?_⟩
    rw [← h]
    simp only [SerializerImpl.insert]
    split <;> rfl
  | none =>
    simp only [serializerFormat, interceptSerializedField, findCustomJsonSerializer, hcustom,
      Option.map_none] at h
    obtain ⟨z, hz, rfl⟩ := Option.map_eq_some_iff.mp h
    obtain ⟨hrestores, hstate⟩ := hnested _ m _ z (hS.nested u) hm rfl hz
    refine ⟨.object z.state.result, .object (hrestores.reads (hS.names u) (hS.custom u) hfields
      (hm _ m (.self _ m)).unknown), ?_⟩
    simp only [serializeMessageFieldEnd, hstate, serializeMessageFieldBegin, List.headD_cons,
      List.tail_cons, hmapFlag]
    split <;> rfl

/-- What becomes of the next entry of a map. -/
theorem writes_entry (henv : ConvertsBack env) (hS : Regular env S)
    (hnested : WritesNested env customIn customOut S order fuel) {key : ScalarKind}
    {value : MapValue} (htype : f.type = .hash key value) (hmapKey : key.isMapKey = true)
    (hfields : NestsFields S (.mapEntry key value)) {e : Scalar × Value} {entry : Message}
    (hkey : e.1.1 = key) (hentry : EntryOf e entry)
    (hm : FullyExpressible customIn customOut S (.mapEntry key value) entry)
    (h : serializeMessageField (serializerFormat env S customOut)
      (serializeMessage (serializerFormat env S customOut) S order fuel) (.mapEntry key value) entry f
        x = some y) :
    ∃ json, ReadsEntry env customIn S key value e (keyText e.1, json) ∧
      y.state = { x.state with
        result := insertIntoObject x.state.result f.jsonName (keyText e.1) (some json) } := by
  have hmapFlag : f.fieldFlags.isMap = true := by
    rw [fieldFlags_isMap, htype]
    rfl
  have hrepeated : f.fieldFlags.repeated = false := by
    rw [FieldInfo.fieldFlags_repeated, htype]
    rfl
  unfold serializeMessageField at h
  simp only [serializerFormat, interceptSerializedField, findCustomJsonSerializer,
    Option.map_none] at h
  obtain ⟨z, hz, rfl⟩ := Option.map_eq_some_iff.mp h
  obtain ⟨hrestores, hstate⟩ := hnested _ entry _ z hfields hm rfl hz
  have hsecond := hrestores.properties 1 _ rfl
  obtain ⟨json, hjson⟩ : ∃ json, z.state.result.lookup "value" = some json := by
    cases hlookup : z.state.result.lookup "value" with
    | some json => exact ⟨json, rfl⟩
    | none =>
      rw [hlookup] at hsecond
      generalize entry.messageProperty 1 _ = v at hsecond
      cases hsecond with
      | elided hpresence => exact absurd rfl hpresence
  rw [hjson] at hsecond
  refine ⟨json, ⟨entry, hentry.standsFor, ?_⟩, ?_⟩
  · refine RestoresAll.reads (hS.tellsApart _) (fun g hg => hS.not_custom hg) (List.cons_ne_nil _ _)
      hentry.unknown ⟨fun i g hg => ?_, fun k hk => ?_⟩
    · match i with
      | 0 =>
        cases hg
        have hscalar (g : FieldInfo) (hg : g.presence = .mapEntry) :
            entry.messageProperty 0 g = .scalar e.1 := by
          rw [Message.messageProperty, hg]
          exact hentry.key
        rw [hscalar _ rfl]
        obtain ⟨⟨k', v⟩, w⟩ := e
        obtain rfl : k' = key := hkey
        exact .scalar rfl rfl (deserializeScalar_keyText henv hmapKey v)
      | 1 =>
        cases hg
        exact hsecond
      | _ + 2 => cases hg
    · have hne : k ≠ "key" ∧ k ≠ "value" :=
        ⟨(hk _ List.mem_cons_self).symm, (hk _ (List.mem_cons_of_mem _ List.mem_cons_self)).symm⟩
      rw [lookup_member, if_neg hne.1, lookup_member, if_neg hne.2]
      rfl
  · simp only [serializeMessageFieldEnd, hstate, serializeMessageFieldBegin, List.headD_cons,
      List.tail_cons, hmapFlag, hrepeated, hentry.key, hjson]
    rfl

/-! ## Lists and maps -/

/-- Members that are set one after another: the last value stays. -/
theorem Sets.trans {x y z : SerializerImpl} {key : String} {json json' : Option JsonValue}
    (h : Sets x y key json) (h' : Sets y z key json') : Sets x z key json' :=
  ⟨h'.lookup, fun key' hne => (h'.others key' hne).trans (h.others key' hne), h'.state.trans h.state⟩

/-- Without a step, the member is as it was. -/
theorem sets_self (x : SerializerImpl) (key : String) : Sets x x key (x.result.lookup key) :=
  ⟨rfl, fun _ _ => rfl, rfl⟩

/-- Inserting a member sets that one only. -/
theorem sets_insert {x y : SerializerImpl} {key : String} {json : JsonValue}
    (h : y = { x with result := x.result.insert key json }) : Sets x y key (some json) := by
  subst h
  refine ⟨?_, fun key' hne => ?_, rfl⟩
  · exact (lookup_insert _ _ _ _).trans (if_pos rfl)
  · exact (lookup_insert _ _ _ _).trans (if_neg hne)

/-- The array of the items that were written, if there is one. -/
def arrayOf (items : List JsonValue) : Option JsonValue :=
  if items.isEmpty then none else some (.array items)

/-- The object of the entries that were written, if there is one. -/
def objectOf (members : JsonObject) : Option JsonValue :=
  if members.isEmpty then none else some (.object members)

/-- An item is appended to the array that is there. -/
theorem appendToArray_eq {o : JsonObject} {key : String} {items : List JsonValue}
    (h : o.lookup key = arrayOf items) (item : JsonValue) :
    appendToArray o key item = o.insert key (.array (items ++ [item])) := by
  unfold appendToArray JsonObject.value
  rw [h]
  cases items <;> rfl

/-- A member is inserted into the object that is there. -/
theorem insertIntoObject_eq {o members : JsonObject} {key : String}
    (h : o.lookup key = objectOf members) (mapKey : String) (json : JsonValue) :
    insertIntoObject o key mapKey (some json) = o.insert key (.object (members.insert mapKey json)) := by
  unfold insertIntoObject JsonObject.value
  rw [h]
  cases members <;> rfl

/-- A member that is inserted under a new key is one more. -/
theorem perm_insert {o : JsonObject} {key : String} (h : key ∉ o.keys) (json : JsonValue) :
    (o.insert key json).Perm ((key, json) :: o) := by
  rw [JsonObject.insert, if_neg h]
  induction o with
  | nil => rfl
  | cons member o ih =>
    rw [JsonObject.keys_cons, List.mem_cons, not_or] at h
    unfold JsonObject.insertNew
    split
    · rfl
    · exact ((ih h.2).cons member).trans (.swap _ _ _)

/-- The messages of a list are appended one by one. -/
theorem writes_messages (hS : Regular env S)
    (hnested : WritesNested env customIn customOut S order fuel) {u : Nat}
    (hfields : (S.message u).fields ≠ []) (htype : f.type = .messageList u) (ms : List Message)
    (hms : ∀ m ∈ ms, FullyExpressible customIn customOut S (.named u) m) (items : List JsonValue)
    (hx : x.state.result.lookup f.jsonName = arrayOf items)
    (h : ms.foldlM (fun x m => serializeMessageField (serializerFormat env S customOut)
      (serializeMessage (serializerFormat env S customOut) S order fuel) (.named u) m f x) x = some y) :
    ∃ items', List.Forall₂ (ReadsMessage env customIn S u) ms items' ∧
      Sets x.state y.state f.jsonName (arrayOf (items ++ items')) := by
  have hrepeated : f.fieldFlags.repeated = true := by
    rw [FieldInfo.fieldFlags_repeated, htype]
    rfl
  induction ms generalizing x items with
  | nil =>
    cases h
    refine ⟨[], .nil, ?_⟩
    rw [List.append_nil, ← hx]
    exact sets_self _ _
  | cons m ms ih =>
    rw [List.foldlM_cons] at h
    obtain ⟨z, hz, hrest⟩ := Option.bind_eq_some_iff.mp h
    obtain ⟨json, hreads, hstate⟩ := writes_message hS hnested hfields (hms m List.mem_cons_self)
      (by rw [htype]; rfl) hz
    rw [if_pos hrepeated, appendToArray_eq hx] at hstate
    have hsets := sets_insert hstate
    obtain ⟨items', hitems, hsets'⟩ := ih (fun m' hm' => hms m' (List.mem_cons_of_mem _ hm'))
      (items ++ [json]) (by rw [hsets.lookup]; simp [arrayOf]) hrest
    rw [List.append_assoc, List.singleton_append] at hsets'
    exact ⟨json :: items', .cons hreads hitems, hsets.trans hsets'⟩

/-- The entries of a map are inserted one by one. -/
theorem writes_entries (henv : ConvertsBack env) (hS : Regular env S)
    (hnested : WritesNested env customIn customOut S order fuel) {key : ScalarKind}
    {value : MapValue} (htype : f.type = .hash key value) (hmapKey : key.isMapKey = true)
    (hfields : NestsFields S (.mapEntry key value)) (entries : List (Scalar × Value))
    (hkeys : ∀ e ∈ entries, e.1.1 = key) (hexpressible : ∀ e ∈ entries, IsExpressible S e.2)
    (hm : ∀ e ∈ entries, ∀ entry, EntryOf e entry →
      FullyExpressible customIn customOut S (.mapEntry key value) entry)
    (hnodup : (entries.map Prod.fst).Nodup) {entry : Message} (hunknown : entry.unknownEntries = [])
    (hentry : IsKeptScalar (entry.member (.field 1))) (members : JsonObject)
    (hnew : ∀ e ∈ entries, keyText e.1 ∉ members.keys)
    (hx : x.state.result.lookup f.jsonName = objectOf members)
    (h : serializeEntries (fun entry => serializeMessageField (serializerFormat env S customOut)
      (serializeMessage (serializerFormat env S customOut) S order fuel) (.mapEntry key value) entry f)
        entry entries x = some y) :
    ∃ members' written, List.Forall₂ (ReadsEntry env customIn S key value) entries members' ∧
      written.Perm (members ++ members') ∧ Sets x.state y.state f.jsonName (objectOf written) := by
  induction entries generalizing x entry members with
  | nil =>
    cases h
    refine ⟨[], members, .nil, by rw [List.append_nil], ?_⟩
    rw [← hx]
    exact sets_self _ _
  | cons e entries ih =>
    obtain ⟨z, hz, hrest⟩ := Option.bind_eq_some_iff.mp h
    have hhere := (hexpressible e List.mem_cons_self).isKeptScalar
    have hof := entryOf_nextEntry hunknown hentry hhere
    obtain ⟨json, hreads, hstate⟩ := writes_entry henv hS hnested htype hmapKey hfields
      (hkeys e List.mem_cons_self) hof (hm e List.mem_cons_self _ hof) hz
    have hfresh := hnew e List.mem_cons_self
    rw [insertIntoObject_eq hx] at hstate
    have hsets := sets_insert hstate
    have hperm := perm_insert hfresh json
    rw [List.map_cons, List.nodup_cons] at hnodup
    obtain ⟨members', written, hmembers, hwritten, hsets'⟩ :=
      ih (fun e' he' => hkeys e' (List.mem_cons_of_mem _ he'))
        (fun e' he' => hexpressible e' (List.mem_cons_of_mem _ he'))
        (fun e' he' => hm e' (List.mem_cons_of_mem _ he')) hnodup.2 hof.unknown
        (by rw [hof.value]; exact hhere) (members.insert (keyText e.1) json)
        (fun e' he' hmem => by
          have hmem' := (hperm.map Prod.fst).mem_iff.mp hmem
          rw [List.map_cons, List.mem_cons] at hmem'
          rcases hmem' with heq | hmem'
          · have hsame := keyText_injective henv
              ((hkeys e' (List.mem_cons_of_mem _ he')).trans (hkeys e List.mem_cons_self).symm)
              (by rw [hkeys e' (List.mem_cons_of_mem _ he')]; exact hmapKey) heq
            exact hnodup.1 (hsame ▸ List.mem_map_of_mem he')
          · exact hnew e' (List.mem_cons_of_mem _ he') hmem')
        (by
          rw [hsets.lookup, objectOf, if_neg]
          rw [List.isEmpty_iff]
          intro hnil
          rw [hnil] at hperm
          exact List.cons_ne_nil _ _ hperm.nil_eq.symm) hrest
    refine ⟨(keyText e.1, json) :: members', written, .cons hreads hmembers, ?_, hsets.trans hsets'⟩
    exact hwritten.trans ((hperm.append_right members').trans List.perm_middle.symm)

/-! ## Properties -/

/-- A value that is left out if it is not present and need not be written. -/
theorem sets_serializeScalarField (f : FieldInfo) {value : Value} {json : JsonValue}
    (hjson : serializeValue env value = some json) (x : SerializerImpl)
    (hx : x.result.lookup f.jsonName = none) :
    (serializeScalarField env f value x).2 = true ∧
      Sets x (serializeScalarField env f value x).1 f.jsonName
        (if isPresent value || mustSerializeDefaultValue f.fieldFlags then some json else none) := by
  unfold serializeScalarField
  simp only [hjson]
  cases hpresent : isPresent value <;> cases hmust : mustSerializeDefaultValue f.fieldFlags <;>
    simp only [Bool.not_true, Bool.not_false, Bool.and_self, Bool.and_false, Bool.false_and,
      Bool.or_self, Bool.or_true, Bool.or_false, if_true, Bool.false_eq_true, if_false,
      true_and]
  · rw [← hx]
    exact sets_self _ _
  · exact sets_insert rfl
  · exact sets_insert rfl
  · exact sets_insert rfl

/-- What is written for a scalar restores it. -/
theorem writes_scalar (henv : ConvertsBack env) (hfits : f.presenceFits = true) {k : ScalarKind}
    {v : k.Carrier} (htype : f.type = .scalar k) (hv : isKept k v = true)
    (hx : x.state.result.lookup f.jsonName = none)
    (h : serializeProperty (serializerFormat env S customOut) S order
      (serializeMessageField (serializerFormat env S customOut)
        (serializeMessage (serializerFormat env S customOut) S order fuel)) f (.scalar ⟨k, v⟩) x =
        some y) :
    ∃ json, Restores env customIn S f (.scalar ⟨k, v⟩) json ∧ Sets x.state y.state f.jsonName json := by
  have henum : f.fieldFlags.isEnum = false := by
    rw [Binary.fieldFlags_isEnum, htype]
    rfl
  obtain ⟨hread, hnull⟩ := deserializeScalar_serializeScalar henv k v hv
  obtain ⟨hok, hsets⟩ := @sets_serializeScalarField env f (.scalar ⟨k, v⟩) _ rfl x.state hx
  simp only [serializeProperty, htype, henum, serializerFormat] at h
  generalize hresult : serializeScalarField env f (.scalar ⟨k, v⟩) x.state = r at h hok hsets
  obtain ⟨s, ok⟩ := r
  simp only at hok
  subst hok
  simp only [Bool.false_eq_true, if_false, Option.some.injEq] at h
  subst h
  refine ⟨_, ?_, hsets⟩
  split
  · exact .scalar htype hnull hread
  · rename_i hskip
    simp only [Bool.or_eq_true, not_or, Bool.not_eq_true] at hskip
    have himplicit := Binary.implicit_of_not_mustSerialize hfits hskip.2
    refine .elided (by simp [himplicit]) ?_
    simp only [FieldInfo.storedDefault, himplicit, htype, PropertyType.initialValue]
    have hzero : v = k.zero ∨ k.isEqual v k.zero = true := by
      cases k with
      | float => exact .inl (by simpa [isPresent] using hskip.1)
      | double => exact .inl (by simpa [isPresent] using hskip.1)
      | _ => exact .inr (by simpa [isPresent, ScalarKind.isPresent] using hskip.1)
    rcases hzero with rfl | hequal
    · exact .scalar (.refl _)
    · exact .scalar (.inr (Scalar.isEqual_iff.mpr ⟨rfl, hequal⟩))

/-- What is written for a list of scalars restores it. -/
theorem writes_list (henv : ConvertsBack env) (hfits : f.presenceFits = true) {k : ScalarKind}
    {vs : List k.Carrier} (htype : f.type = .list k) (hvs : ∀ v ∈ vs, isKept k v = true)
    (hx : x.state.result.lookup f.jsonName = none)
    (h : serializeProperty (serializerFormat env S customOut) S order
      (serializeMessageField (serializerFormat env S customOut)
        (serializeMessage (serializerFormat env S customOut) S order fuel)) f (.scalars k vs) x =
        some y) :
    ∃ json, Restores env customIn S f (.scalars k vs) json ∧ Sets x.state y.state f.jsonName json := by
  have henum : f.fieldFlags.isEnum = false := by
    rw [Binary.fieldFlags_isEnum, htype]
    rfl
  have himplicit := Binary.implicit_of_isRepeated hfits (by rw [htype]; rfl)
  have hmust : mustSerializeDefaultValue f.fieldFlags = false := by
    simp [mustSerializeDefaultValue, FieldInfo.fieldFlags, himplicit, FieldInfo.collectFieldFlags]
  obtain ⟨hok, hsets⟩ := @sets_serializeScalarField env f (.scalars k vs) _ rfl x.state hx
  simp only [serializeProperty, htype, henum, serializerFormat] at h
  generalize hresult : serializeScalarField env f (.scalars k vs) x.state = r at h hok hsets
  obtain ⟨s, ok⟩ := r
  simp only at hok
  subst hok
  simp only [Bool.false_eq_true, if_false, Option.some.injEq] at h
  subst h
  refine ⟨_, ?_, hsets⟩
  rw [hmust, Bool.or_false]
  split
  · rename_i hpresent
    have hne : vs ≠ [] := by simpa [isPresent] using hpresent
    exact .list htype (deserializeList_serializeList henv hne hvs)
  · rename_i habsent
    obtain rfl : vs = [] := by simpa [isPresent] using habsent
    refine .elided (by simp [himplicit]) ?_
    simp only [FieldInfo.storedDefault, himplicit, htype, PropertyType.initialValue]
    exact .scalars k []

/-- What is written for an enumerator restores it. -/
theorem writes_enumerator (hS : Regular env S) {e : Nat} {v : BitVec 32} (htype : f.type = .enum e)
    (hv : (S.valueToKey e v).isSome = true)
    (h : serializeProperty (serializerFormat env S customOut) S order
      (serializeMessageField (serializerFormat env S customOut)
        (serializeMessage (serializerFormat env S customOut) S order fuel)) f (.enumerator e v) x =
        some y) :
    ∃ json, Restores env customIn S f (.enumerator e v) json ∧ Sets x.state y.state f.jsonName json := by
  have henum : f.fieldFlags.isEnum = true := by
    rw [Binary.fieldFlags_isEnum, htype]
    rfl
  have hrepeated : f.fieldFlags.repeated = false := by
    rw [FieldInfo.fieldFlags_repeated, htype]
    rfl
  obtain ⟨key, hkey⟩ := Option.isSome_iff_exists.mp hv
  obtain ⟨hback, hne⟩ := hS.keyToValue_of_valueToKey hkey
  have hempty : key.isEmpty = false := by simpa using hne
  simp only [serializeProperty, htype, henum, serializerFormat, serializeEnum, hrepeated, hkey, hempty,
    Bool.false_and, Bool.false_eq_true, if_false, if_true, Option.some.injEq] at h
  subst h
  exact ⟨_, .enumerator htype hback, sets_insert rfl⟩

/-- The names of known enumerators are all found again. -/
theorem mapM_keyToValue (hS : Regular env S) {e : Nat} {vs : List (BitVec 32)}
    (hvs : ∀ v ∈ vs, (S.valueToKey e v).isSome = true) :
    (vs.map fun v => (S.valueToKey e v).getD "").mapM (S.keyToValue e) = some vs := by
  induction vs with
  | nil => rfl
  | cons v vs ih =>
    obtain ⟨key, hkey⟩ := Option.isSome_iff_exists.mp (hvs v List.mem_cons_self)
    have hback := (hS.keyToValue_of_valueToKey hkey).1
    rw [List.map_cons, List.mapM_cons, hkey, Option.getD_some, hback,
      ih fun w hw => hvs w (List.mem_cons_of_mem v hw)]
    rfl

/-- What is written for a list of enumerators restores it. -/
theorem writes_enumerators (henv : ConvertsBack env) (hS : Regular env S)
    (hfits : f.presenceFits = true) {e : Nat} {vs : List (BitVec 32)} (htype : f.type = .enumList e)
    (hvs : ∀ v ∈ vs, (S.valueToKey e v).isSome = true)
    (hx : x.state.result.lookup f.jsonName = none)
    (h : serializeProperty (serializerFormat env S customOut) S order
      (serializeMessageField (serializerFormat env S customOut)
        (serializeMessage (serializerFormat env S customOut) S order fuel)) f (.enumerators e vs) x =
        some y) :
    ∃ json, Restores env customIn S f (.enumerators e vs) json ∧
      Sets x.state y.state f.jsonName json := by
  have henum : f.fieldFlags.isEnum = true := by
    rw [Binary.fieldFlags_isEnum, htype]
    rfl
  have hrepeated : f.fieldFlags.repeated = true := by
    rw [FieldInfo.fieldFlags_repeated, htype]
    rfl
  have himplicit := Binary.implicit_of_isRepeated hfits (by rw [htype]; rfl)
  simp only [serializeProperty, htype, henum, serializerFormat, serializeEnum, hrepeated, if_true,
    Option.some.injEq] at h
  subst h
  by_cases hvs' : vs = []
  · subst hvs'
    refine ⟨none, .elided (by simp [himplicit]) ?_, ?_⟩
    · simp only [FieldInfo.storedDefault, himplicit, htype, PropertyType.initialValue]
      exact .enumerators e []
    · rw [← hx]
      exact sets_self _ _
  · have hempty : (vs.map fun v => (S.valueToKey e v).getD "").isEmpty = false := by
      simpa using hvs'
    simp only [hempty, Bool.false_eq_true, if_false]
    refine ⟨_, .enumerators htype ?_ (mapM_keyToValue hS hvs), sets_insert rfl⟩
    refine @deserializeList_serializeList env henv .string _ (fun hnil => ?_) fun _ _ => rfl
    rw [hnil] at hempty
    cases hempty

/-- The entries of a map of a message that nests its fields do so as well. -/
theorem nestsFields_mapEntry (hfields : NestsFields S t) (hf : f ∈ (S.propertyOrdering t).fields)
    {key : ScalarKind} {value : MapValue} (htype : f.type = .hash key value) :
    NestsFields S (.mapEntry key value) := by
  intro g hg u hu
  simp only [Schema.propertyOrdering, MessageDescriptor.mapEntry, List.mem_cons, List.not_mem_nil,
    or_false] at hg
  rcases hg with rfl | rfl
  · exact hu.elim
  · refine hfields f hf u ?_
    rw [htype]
    cases value <;> exact hu

/-- The value of a new entry is a scalar that JSON keeps, or none. -/
theorem isKeptScalar_defaultMessage (key : ScalarKind) (value : MapValue) :
    IsKeptScalar ((S.defaultMessage (.mapEntry key value)).member (.field 1)) := by
  cases value with
  | scalar k =>
    have hzero : isKept k k.zero = true := by cases k <;> decide
    exact hzero
  | _ => trivial

/-- What is written of a property is read again. -/
theorem writes_property (henv : ConvertsBack env) (hS : Regular env S)
    (hnested : WritesNested env customIn customOut S order fuel) (hfields : NestsFields S t)
    (hm : FullyExpressible customIn customOut S t m)
    (hf : (S.propertyOrdering t).fields[i]? = some f) (hx : x.state.result.lookup f.jsonName = none)
    (h : serializeProperty (serializerFormat env S customOut) S order
      (serializeMessageField (serializerFormat env S customOut)
        (serializeMessage (serializerFormat env S customOut) S order fuel)) f
        (m.messageProperty i f) x = some y) :
    ∃ json, Restores env customIn S f (m.messageProperty i f) json ∧
      Sets x.state y.state f.jsonName json := by
  have hmem := List.mem_of_getElem? hf
  have hfits := (S.propertyOrdering t).presence_fits f hmem
  have hhere := hm t m (.self t m)
  have hexpressible := hhere.values i f hf
  rcases hhere.valid.fields i f hf with hvalue | ⟨hnull, hunset⟩
  · generalize hv : m.messageProperty i f = v at h hvalue hexpressible
    generalize htype : f.type = type at hvalue
    cases hvalue with
    | scalar v => exact writes_scalar henv hfits htype hexpressible hx h
    | list vs => exact writes_list henv hfits htype hexpressible hx h
    | enum v => exact writes_enumerator hS htype hexpressible h
    | enumList vs => exact writes_enumerators henv hS hfits htype hexpressible hx h
    | message sub =>
      rename_i u
      simp only [serializeProperty, htype] at h
      obtain ⟨json, hreads, hstate⟩ := writes_message hS hnested
        (hfields f hmem u (by rw [htype]; rfl)) (fun w n hholds => hm w n (.message hf hv hholds))
        (by rw [htype]; rfl) h
      rw [FieldInfo.fieldFlags_repeated, htype] at hstate
      exact ⟨some json, .message htype hreads, sets_insert hstate⟩
    | messageList ms =>
      rename_i u
      simp only [serializeProperty, htype] at h
      obtain ⟨items, hitems, hsets⟩ := writes_messages hS hnested
        (hfields f hmem u (by rw [htype]; rfl)) htype ms
        (fun sub hsub w n hholds => hm w n (.element hf hv hsub hholds)) [] hx h
      refine ⟨_, ?_, hsets⟩
      rw [List.nil_append]
      have himplicit := Binary.implicit_of_isRepeated hfits (by rw [htype]; rfl)
      cases hitems with
      | nil =>
        refine .elided (by simp [himplicit]) ?_
        simp only [FieldInfo.storedDefault, himplicit, htype, PropertyType.initialValue]
        exact .messages rfl (by simp)
      | cons hitem hitems => exact .messages htype (List.cons_ne_nil _ _) (.cons hitem hitems)
    | hash hkeys hnodup hvalues =>
      rename_i key value entries
      simp only [serializeProperty, htype] at h
      have hperm := order.entries_perm entries
      have hmapKey := hS.map_key hmem htype
      obtain ⟨members, written, hmembers, hwritten, hsets⟩ := writes_entries henv hS hnested htype hmapKey
        (nestsFields_mapEntry hfields hmem htype) (order.entries entries)
        (fun e he => hkeys e (hperm.mem_iff.mp he))
        (fun e he => hexpressible e (hperm.mem_iff.mp he))
        (fun e he entry hentry => hm.entry hf hv (hperm.mem_iff.mp he) (hkeys e (hperm.mem_iff.mp he))
          hmapKey (hvalues e (hperm.mem_iff.mp he)) (hexpressible e (hperm.mem_iff.mp he)) hentry)
        ((hperm.map Prod.fst).nodup_iff.mpr hnodup) rfl
        (isKeptScalar_defaultMessage key value) [] (by simp) hx h
      refine ⟨_, ?_, hsets⟩
      rw [List.nil_append] at hwritten
      have himplicit := Binary.implicit_of_isRepeated hfits (by rw [htype]; rfl)
      obtain ⟨ordered, hreads, hordered⟩ := List.perm_comp_forall₂ hwritten hmembers.flip
      cases hreads with
      | nil =>
        obtain rfl : entries = [] := List.nil_perm.mp (hordered.trans hperm)
        refine .elided (by simp [himplicit]) ?_
        simp only [FieldInfo.storedDefault, himplicit, htype, PropertyType.initialValue]
        exact .hash (.refl []) rfl (by simp)
      | cons hread hreads =>
        exact .entries htype hmapKey (List.cons_ne_nil _ _)
          (fun e he => ⟨hkeys e he, hvalues e he⟩) hnodup (hordered.trans hperm)
          (List.Forall₂.cons hread hreads).flip
    | custom content => exact (hS.not_custom hmem _ _ htype).elim
  · have hrequired : f.presence ≠ .required := fun hpresence => hhere.required i f hf hpresence hnull
    rw [hnull] at h ⊢
    have hflag : f.fieldFlags.required = false := by
      unfold FieldInfo.fieldFlags
      cases hpresence : f.presence <;>
        simp_all [FieldInfo.getFlagForType, FieldInfo.collectFieldFlags]
    obtain rfl : x = y := by
      unfold serializeProperty at h
      split at h <;> simp_all
    unfold FieldInfo.mayBeUnset at hunset
    refine ⟨none, .elided (fun hpresence => by simp [hpresence] at hunset) ?_, ?_⟩
    · have hstored : f.storedDefault S = .null := by
        unfold FieldInfo.storedDefault
        cases hpresence : f.presence <;> cases htype : f.type <;>
          simp_all [PropertyType.isPureMessage, PropertyType.initialValue]
      rw [hstored]
      exact .null
    · rw [← hx]
      exact sets_self _ _

/-! ## Messages -/

/-- What is written of the fields is read again. -/
theorem writes_fields (henv : ConvertsBack env) (hS : Regular env S)
    (hnested : WritesNested env customIn customOut S order fuel) (hfields : NestsFields S t)
    (hm : FullyExpressible customIn customOut S t m) (l : List (FieldInfo × Nat))
    (hl : ∀ p ∈ l, (S.propertyOrdering t).fields[p.2]? = some p.1) (hnodup : (l.map Prod.snd).Nodup)
    (hx : ∀ p ∈ l, x.state.result.lookup p.1.jsonName = none)
    (h : l.foldlM (fun x (f, i) => serializeProperty (serializerFormat env S customOut) S order
      (serializeMessageField (serializerFormat env S customOut)
        (serializeMessage (serializerFormat env S customOut) S order fuel)) f
        (m.messageProperty i f) x) x = some y) :
    (∀ p ∈ l, Restores env customIn S p.1 (m.messageProperty p.2 p.1)
      (y.state.result.lookup p.1.jsonName)) ∧
      (∀ key, (∀ p ∈ l, p.1.jsonName ≠ key) →
        y.state.result.lookup key = x.state.result.lookup key) ∧
      y.state.state = x.state.state := by
  induction l generalizing x with
  | nil =>
    cases h
    exact ⟨by simp, fun _ _ => rfl, rfl⟩
  | cons p l ih =>
    rw [List.foldlM_cons] at h
    obtain ⟨z, hz, hrest⟩ := Option.bind_eq_some_iff.mp h
    have hp := hl p List.mem_cons_self
    rw [List.map_cons, List.nodup_cons] at hnodup
    have hnames : ∀ q ∈ l, q.1.jsonName ≠ p.1.jsonName := by
      intro q hq heq
      have hindex := hS.tellsApart t _ _ _ _ (hl q (List.mem_cons_of_mem _ hq)) hp
        (by rw [heq]; exact keyMatches_self env p.1.jsonName)
      exact hnodup.1 (hindex ▸ List.mem_map_of_mem hq)
    obtain ⟨json, hrestores, hsets⟩ := writes_property henv hS hnested hfields hm hp
      (hx p List.mem_cons_self) hz
    obtain ⟨hall, hothers, hstate⟩ := ih (fun q hq => hl q (List.mem_cons_of_mem _ hq)) hnodup.2
      (fun q hq => by
        rw [hsets.others _ (hnames q hq)]
        exact hx q (List.mem_cons_of_mem _ hq)) hrest
    refine ⟨fun q hq => ?_, fun key hkey => ?_, hstate.trans hsets.state⟩
    · rcases List.mem_cons.mp hq with rfl | hq
      · rw [hothers _ hnames, hsets.lookup]
        exact hrestores
      · exact hall q hq
    · rw [hothers key fun q hq => hkey q (List.mem_cons_of_mem _ hq)]
      exact hsets.others key (hkey p List.mem_cons_self).symm

/-- The encoder writes a message into an object from which it is read. -/
theorem writesNested (henv : ConvertsBack env) (hS : Regular env S) (order : HashOrder) (fuel : Nat) :
    WritesNested env customIn customOut S order fuel := by
  induction fuel with
  | zero =>
    intro t m x y _ _ _ h
    cases h
  | succ fuel ih =>
    intro t m x y hfields hm hx h
    obtain ⟨hall, hothers, hstate⟩ := writes_fields henv hS ih hfields hm
      (S.propertyOrdering t).fields.zipIdx (fun p hp => List.mk_mem_zipIdx_iff_getElem?.mp hp)
      (by rw [List.zipIdx_map_snd]; exact List.nodup_range') (fun p _ => by rw [hx]; rfl) h
    refine ⟨⟨fun i f hf => ?_, fun key hkey => ?_⟩, hstate⟩
    · exact hall (f, i) (List.mk_mem_zipIdx_iff_getElem?.mpr hf)
    · rw [hothers key fun p hp => hkey p.1 (List.fst_mem_of_mem_zipIdx hp), hx]
      rfl

end

end QtGrpc.Protobuf.Json
