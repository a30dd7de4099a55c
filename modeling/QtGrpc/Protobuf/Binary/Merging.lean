import QtGrpc.Protobuf.Binary.FieldOrder
import QtGrpc.WellKnown.Any

/-!
# Sub-messages in two parts

The payload of a message field may come in two occurrences of the field: the decoder goes on with
the sub-message it has. The property in the cache is written between them, and each payload is
asked for the required fields by itself. Where the type of the field has a handler, each payload
makes a value of its own.
-/

namespace QtGrpc.Protobuf.Binary

section

variable {env : Environment} {S : Schema} {keep : Bool} {t : MessageType}

/-! ## Between two payloads -/

/-- The property that the first known one of these fields is read into. -/
def nextIndex (S : Schema) (t : MessageType) (xs : List WireField) : Option Nat :=
  xs.findSome? fun x => (S.propertyOrdering t).indexOfFieldNumber x.fieldNumber

/-- The fields up to the first one of another property. -/
def fieldsOf (S : Schema) (t : MessageType) (k : Nat) (xs : List WireField) : List WireField :=
  xs.takeWhile fun x =>
    ((S.propertyOrdering t).indexOfFieldNumber x.fieldNumber).all fun n => n == k

/-- The second draft is the first one with its property written. -/
structure Draft.Written (S : Schema) (t : MessageType) (p q : Draft) : Prop where
  cache : q.cache = {}
  store : storeCachedValue S t p.cache p.message = ({}, q.message, true)

/-- Writing a property does not look at unknown fields. -/
theorem Draft.Written.kept {p q : Draft} (h : p.Written S t q) (x : WireField) :
    Draft.Written S t ⟨p.cache, keptMessage keep p.message x⟩
      ⟨q.cache, keptMessage keep q.message x⟩ := by
  refine ⟨h.cache, ?_⟩
  have hself := @storeCachedValue_withEntries S t p.message.unknownEntries p.cache p.message
  rw [withEntries_eq rfl, h.store] at hself
  have hentries : q.message.unknownEntries = p.message.unknownEntries := by
    have := congrArg (fun r => r.2.1.unknownEntries) hself
    simpa using this
  have hp := @keptMessage_withEntries keep p.message p.message x
  have hq := @keptMessage_withEntries keep q.message p.message x
  rw [withEntries_eq rfl] at hp
  rw [← hentries, withEntries_eq rfl] at hq
  rw [hp, storeCachedValue_withEntries, h.store, hq]

/-- A property that was written leaves nothing to write. -/
theorem Draft.Written.stored {p q : Draft} (h : p.Written S t q) :
    storeCachedValue S t q.cache q.message = ({}, q.message, true) := by
  rw [h.cache]
  rfl

/-- A field of another property finds the same draft. -/
theorem Draft.Written.decodes_one {x : WireField} {p q p' : Draft} {n : Nat} (h : p.Written S t q)
    (hindex : (S.propertyOrdering t).indexOfFieldNumber x.fieldNumber = some n)
    (hn : p.cache.index ≠ some n) (hdecodes : Decodes env S keep t [x] p p') :
    Decodes env S keep t [x] q p' := by
  have hx := hdecodes.complete x List.mem_cons_self
  obtain ⟨f, hf⟩ := exists_field_of_indexOfFieldNumber hindex
  have hselect : selectProperty S t n f p.cache p.message =
      selectProperty S t n f q.cache q.message := by
    have hq : q.cache.index ≠ some n := by simp [h.cache]
    simp only [selectProperty, if_neg hn, if_neg hq, h.store, h.stored]
  rw [decodes_known_iff hx hindex hf] at hdecodes ⊢
  rwa [← hselect]

/-- Fields that do not go on with the property in the cache make the same message if it is written
before them. -/
theorem Draft.Written.decodes {xs : List WireField} {p q p' : Draft} (h : p.Written S t q)
    (hnext : ∀ k, p.cache.index = some k → nextIndex S t xs ≠ some k)
    (hdecodes : Decodes env S keep t xs p p') :
    ∃ q', Decodes env S keep t xs q q' ∧ (q' = p' ∨ p'.Written S t q') := by
  induction xs generalizing p q with
  | nil =>
    obtain rfl := hdecodes.eq_of_nil
    exact ⟨q, .nil t q, .inr h⟩
  | cons x xs ih =>
    obtain ⟨p₁, hx, hxs⟩ := hdecodes.of_cons
    have hcomplete := hx.complete x List.mem_cons_self
    cases hindex : (S.propertyOrdering t).indexOfFieldNumber x.fieldNumber with
    | none =>
      obtain rfl := (decodes_unknown_iff hcomplete hindex).mp hx
      have hskip : nextIndex S t (x :: xs) = nextIndex S t xs := by
        simp only [nextIndex, List.findSome?_cons, hindex]
      rw [hskip] at hnext
      obtain ⟨q', hq', hsame⟩ := ih (h.kept x) hnext hxs
      exact ⟨q', .unknown hcomplete hindex hq', hsame⟩
    | some n =>
      have hn : p.cache.index ≠ some n := by
        intro hn
        refine hnext n hn ?_
        simp only [nextIndex, List.findSome?_cons, hindex]
      exact ⟨p', (h.decodes_one hindex hn hx).append hxs, .inl rfl⟩

/-- A property that is stored as it is at the end is so in front of another field. -/
theorem Draft.Exact.of_nil {A : Nat → Prop} {p : Draft} (h : p.Exact S t A []) {z : WireField}
    {zs : List WireField} {n : Nat}
    (hindex : (S.propertyOrdering t).indexOfFieldNumber z.fieldNumber = some n) (hn : ¬A n) :
    p.Exact S t A (z :: zs) := by
  refine ⟨fun i f hi hA hf _ => h.written i f hi hA hf (by simp), ?_⟩
  intro i f x hi hA hf hx hxi
  obtain rfl := Option.some.inj hx
  rw [hindex] at hxi
  cases hxi
  exact absurd hA hn

variable (env S keep t) in
/-- The property of a field is stored as it is between two payloads, and behind the fields of the
second payload that go on with it. -/
structure Rejoins (k : Nat) (xs : List WireField) (p q : Draft) : Prop where
  between : p.Exact S t (fun n => n = k) []
  joined : ExactAlong env S keep t (fun n => n = k) (fieldsOf S t k xs) p
  apart : ExactAlong env S keep t (fun n => n = k) (fieldsOf S t k xs) q

/-- Fields that go on with the property in the cache make the same message if it is written before
them, where the setter stores it as it is. -/
theorem Draft.Written.rejoins {xs : List WireField} {p q p' : Draft} {k : Nat}
    (h : p.Written S t q) (hp : p.Sound S t) (hk : p.cache.index = some k)
    (hexact : Rejoins env S keep t k xs p q) (hdecodes : Decodes env S keep t xs p p') :
    ∃ q', Decodes env S keep t xs q q' ∧ ∀ c m,
      storeCachedValue S t p'.cache p'.message = (c, m, true) →
        ∃ c', storeCachedValue S t q'.cache q'.message = (c', m, true) := by
  obtain ⟨f, hf, hv⟩ : ∃ f, (S.propertyOrdering t).fields[k]? = some f ∧
      p.cache.propertyValue.Suits f.type := by
    cases hp.pending with
    | stored hindex _ => simp [hindex] at hk
    | cached hindex hf hv _ =>
      rw [hindex] at hk
      cases hk
      exact ⟨_, hf, hv.suits⟩
  have hsettles : p.Settles S t (fun n => n = k) _ := .cached hk rfl hf hv (hp.entry k f hk hf)
  have hstore := hsettles.store hexact.between
  rw [h.store] at hstore
  have hq : q = ⟨{}, q.message⟩ := by rw [← h.cache]
  have halike : p.Alike S t (fun n => n = k) q := by
    refine .inr ⟨q.message, ?_, by rw [hq]; exact .stored _⟩
    rw [show q.message = writeProperty S p.message k f p.cache.propertyValue from
      congrArg (fun r => r.2.1) hstore]
    exact hsettles
  have hsplit : xs = fieldsOf S t k xs ++ xs.dropWhile fun x =>
      ((S.propertyOrdering t).indexOfFieldNumber x.fieldNumber).all fun n => n == k :=
    (List.takeWhile_append_dropWhile).symm
  rw [hsplit] at hdecodes
  obtain ⟨p₁, hfields, hrest⟩ := hdecodes.of_append
  obtain ⟨q₁, hfields', halike₁⟩ := halike.decodes hexact.joined hexact.apart hfields
  have hp₁ := hexact.joined.last hfields
  have hq₁ := hexact.apart.last hfields'
  rw [hsplit]
  rcases halike₁ with rfl | ⟨M, hM, hM'⟩
  · exact ⟨p', hfields'.append hrest, fun c m hm => ⟨c, hm⟩⟩
  · generalize hdrop : (xs.dropWhile fun x =>
      ((S.propertyOrdering t).indexOfFieldNumber x.fieldNumber).all fun n => n == k) = rest at hrest
    cases rest with
    | nil =>
      obtain rfl := hrest.eq_of_nil
      refine ⟨q₁, by rwa [List.append_nil], fun c m hm => ?_⟩
      rw [hM.store hp₁] at hm
      cases hm
      exact ⟨{}, hM'.store hq₁⟩
    | cons z zs =>
      obtain ⟨p₂, hz, hzs⟩ := hrest.of_cons
      have hstop := List.head_dropWhile_not (fun x : WireField =>
        ((S.propertyOrdering t).indexOfFieldNumber x.fieldNumber).all fun n => n == k)
        (show xs.dropWhile _ ≠ [] by rw [hdrop]; simp)
      simp only [hdrop, List.head_cons] at hstop
      cases hindex : (S.propertyOrdering t).indexOfFieldNumber z.fieldNumber with
      | none => simp [hindex] at hstop
      | some n =>
        rw [hindex] at hstop
        have hn : n ≠ k := by simpa using hstop
        have hp₂ : p₁.Exact S t (fun n => n = k) (z :: zs) := hp₁.of_nil hindex hn
        have hz' := hM.decodes_other hp₂ hM' (hq₁.of_nil hindex hn) hindex hn hz
        exact ⟨p', hfields'.append (hz'.append hzs), fun c m hm => ⟨c, hm⟩⟩

/-- Fields make the same message if the property in the cache is written before them, unless they
go on with it and its setter does not store it as it is. -/
theorem Draft.Written.splits {xs : List WireField} {p q p' : Draft} (h : p.Written S t q)
    (hp : p.Sound S t)
    (hexact : ∀ k, p.cache.index = some k → nextIndex S t xs = some k →
      Rejoins env S keep t k xs p q)
    (hdecodes : Decodes env S keep t xs p p') {c : Cache} {m : Message}
    (hstore : storeCachedValue S t p'.cache p'.message = (c, m, true)) :
    ∃ q' c', Decodes env S keep t xs q q' ∧
      storeCachedValue S t q'.cache q'.message = (c', m, true) := by
  by_cases hnext : ∃ k, p.cache.index = some k ∧ nextIndex S t xs = some k
  · obtain ⟨k, hk, hxs⟩ := hnext
    obtain ⟨q', hq', hsame⟩ := h.rejoins hp hk (hexact k hk hxs) hdecodes
    obtain ⟨c', hc'⟩ := hsame c m hstore
    exact ⟨q', c', hq', hc'⟩
  · push Not at hnext
    obtain ⟨q', hq', rfl | hwritten⟩ := h.decodes hnext hdecodes
    · exact ⟨q', c, hq', hstore⟩
    · rw [hwritten.store] at hstore
      cases hstore
      exact ⟨q', {}, hq', hwritten.stored⟩

/-! ## A payload without a required field -/

/-- A message that lacks a required field is refused behind its last field. -/
theorem Reaches.refused {ys : List WireField} {start sub : Message} {r : Draft} {c : Cache}
    {d d' : Deserializer} {tail : Bytes} {frames : List Int}
    (h : Reaches env S t (ys.flatMap WireField.bytes) [] (seenBehind S t ys []) ⟨{}, start⟩ r d d')
    (hd' : d'.At [] tail frames) (hstore : storeCachedValue S t r.cache r.message = (c, sub, true))
    (hrequired : ¬RequiredPresent S t ys) :
    ∃ d'', d''.lastError ≠ .none ∧ Returns env S t [] {} d start (ys.flatMap WireField.bytes).length
      (d'', sub, false) := by
  let failed : Deserializer := { d' with state := frames }
  let checked := checkRequiredFields (format env S) S t (seenBehind S t ys []) failed
  have hnoError : failed.lastError = .none := hd'.noError
  have hchecks : (!(format env S).enforceRequiredFields || (format env S).hasError failed) =
      false := by
    simp [format, Deserializer.hasError, hnoError]
  have hmissing : missingFields (S.propertyOrdering t) (seenBehind S t ys []) ≠ [] := by
    exact fun hnone => hrequired (requiredPresent_iff.mpr hnone)
  have hchecked : checked.1.lastError ≠ .none ∧ checked.2 = false := by
    simp only [checked, checkRequiredFields, hchecks, Bool.false_eq_true, if_false]
    cases hnames : missingFields (S.propertyOrdering t) (seenBehind S t ys []) with
    | nil => exact absurd hnames hmissing
    | cons name names => simp [format, Deserializer.setError]
  refine ⟨checked.1, hchecked.1, ?_⟩
  have hfinish := h.leads 0 (checked.1, sub, false) (Returns.finish hd' (by
    simp only [finishMessage, hstore]
    rw [← hchecked.2]))
  rwa [Nat.zero_add] at hfinish

/-- A refused sub-message is kept as it is. -/
theorem deserializeProperty_refused {i : Nat} {f : FieldInfo} {start sub m : Message} {c : Cache}
    {t' t'' : Nat} {d₁ d₂ : Deserializer}
    {nested : MessageType → Deserializer → Message → Deserializer × Message × Outcome}
    (htype : f.type = .message t') (hv : c.propertyValue = .message t'' start)
    (hnested : nested (.named t') d₁ start = (d₂, sub, .returned false)) :
    deserializeProperty (format env S) S nested i f c d₁ m =
      ⟨{ c with propertyValue := .message t' sub }, d₂, m.writeThrough i f (.message t' sub),
        some (.returned false)⟩ := by
  simp [deserializeProperty, htype, hv, hnested]

/-- A refused sub-message ends the loop. -/
theorem Returns.refused {d : Deserializer} {x : WireField} {input tail : Bytes}
    {frames : List Int} {seen : List Nat} {cache : Cache} {m : Message} (hx : x.Complete env)
    (h : d.At (x.bytes ++ input) tail frames) {i : Nat} {f : FieldInfo}
    (hindex : (S.propertyOrdering t).indexOfFieldNumber x.fieldNumber = some i)
    (hfield : (S.propertyOrdering t).fields[i]? = some f) {t' t'' : Nat}
    (htype : f.type = .message t') {length content : Bytes} (hpayload : x.payload = length ++ content)
    (hlength : IsVarint env length (BitVec.ofNat 64 content.length))
    (hsize : content.length ≤ maxByteArraySize) {c : Cache} {m₁ start sub : Message}
    (hselect : selectProperty S t i f cache m = (c, m₁, true))
    (hv : c.propertyValue = .message t'' start) {d' : Deserializer} {k : Nat}
    (hnested : Returns env S (.named t') [] {} (d.enter t x content) start k (d', sub, false)) :
    Returns env S t seen cache d m (k + 1)
      (d', m₁.writeThrough i f (.message t' sub), false) := by
  have hmessage : (f.fieldFlags.isMessage || f.fieldFlags.isMap) = true := by
    rw [FieldInfo.fieldFlags_isMessage ((S.propertyOrdering t).presence_fits f
      (List.mem_of_getElem? hfield)), htype]
    rfl
  intro fuel hfuel
  obtain ⟨fuel, rfl⟩ : ∃ k, fuel = k + 1 := ⟨fuel - 1, by omega⟩
  have hfound : (format env S).nextFieldIndex (fuel + 1) t d m = (d.enter t x content, m, .field i) :=
    (nextFieldIndex_enter hx h hpayload hlength hsize hindex hfield hmessage fuel m).1
  have hproperty := @deserializeProperty_refused env S i f start sub m₁ c t' t''
    (d.enter t x content) d' (deserializeMessageField (format env S) S fuel) htype hv
    (hnested fuel (by omega))
  rw [deserializeLoop_succ]
  simp only [hfound, hfield, hselect, hproperty]

variable (env) in
/-- The payload of a field is a length and these fields. -/
structure Encloses (x : WireField) (ys : List WireField) : Prop where
  complete : x.Complete env
  payload : ∃ length, x.payload = length ++ ys.flatMap WireField.bytes ∧
    IsVarint env length (BitVec.ofNat 64 (ys.flatMap WireField.bytes).length)
  size : (ys.flatMap WireField.bytes).length ≤ maxByteArraySize

/-- An input with a sub-message that lacks a required field is not accepted. -/
theorem Decodes.rejected {s : Serializer} {before after ys : List WireField} {x : WireField}
    {p r : Draft} {i t' t'' : Nat} {f : FieldInfo} {c c' : Cache} {m start sub : Message}
    (h : Decodes env S s.deserializer.preserveUnknownFields t before (.start S t) p)
    (hx : Encloses env x ys)
    (hindex : (S.propertyOrdering t).indexOfFieldNumber x.fieldNumber = some i)
    (hfield : (S.propertyOrdering t).fields[i]? = some f) (htype : f.type = .message t')
    (hselect : selectProperty S t i f p.cache p.message = (c, m, true))
    (hv : c.propertyValue = .message t'' start)
    (hsub : Decodes env S s.deserializer.preserveUnknownFields (.named t') ys ⟨{}, start⟩ r)
    (hstore : storeCachedValue S (.named t') r.cache r.message = (c', sub, true))
    (hrequired : ¬RequiredPresent S (.named t') ys) {fuel : Nat}
    (hfuel : ((before ++ x :: after).flatMap WireField.bytes).length < fuel) :
    ∃ s' m', s.deserialize env S fuel t ((before ++ x :: after).flatMap WireField.bytes) =
      (s', m', .returned false) := by
  by_cases hsize : ((before ++ x :: after).flatMap WireField.bytes).length ≤
      s.effectiveMaximumInputSize
  · obtain ⟨length, hpayload, hlength⟩ := hx.payload
    have hstarted := started_at s ((before ++ x :: after).flatMap WireField.bytes)
    have hbytes : (before ++ x :: after).flatMap WireField.bytes =
        before.flatMap WireField.bytes ++ (x.bytes ++ after.flatMap WireField.bytes) := by
      rw [List.flatMap_append, List.flatMap_cons]
    rw [hbytes] at hstarted hfuel hsize ⊢
    obtain ⟨d, hreaches⟩ := h.reaches [] hstarted rfl
    have hat := hstarted.reached hreaches
    have hmessage : (f.fieldFlags.isMessage || f.fieldFlags.isMap) = true := by
      rw [FieldInfo.fieldFlags_isMessage ((S.propertyOrdering t).presence_fits f
        (List.mem_of_getElem? hfield)), htype]
      rfl
    have hentered := (nextFieldIndex_enter hx.complete hat hpayload hlength hx.size hindex hfield
      hmessage 0 p.message).2
    rw [← List.append_nil (ys.flatMap WireField.bytes)] at hentered
    obtain ⟨d₁, hinner⟩ := hsub.reaches [] hentered hreaches.preserves
    obtain ⟨d₂, herror, hreturns⟩ := hinner.refused (hentered.reached hinner) hstore hrequired
    rw [List.append_nil] at hreturns
    have hrefused : Returns env S t (seenBehind S t before []) _ _ _ _ _ :=
      Returns.refused hx.complete hat hindex hfield htype hpayload hlength hx.size hselect hv hreturns
    have hloop := hreaches.leads _ _ hrefused fuel (by
      obtain ⟨value, hvarint, -⟩ := hx.complete.header
      have hheader := hvarint.length_pos
      rw [List.length_append, List.length_append, WireField.bytes, hpayload, List.length_append,
        List.length_append] at hfuel
      omega)
    simp only [Draft.start] at hloop
    refine ⟨{ s with deserializer := d₂.reset [] }, m.writeThrough i f (.message t' sub), ?_⟩
    simp only [Serializer.deserialize, if_neg (Nat.not_lt.mpr hsize), deserializeMessage, hloop]
    simp [Deserializer.reset, herror]
  · simp only [Serializer.deserialize, if_pos (Nat.not_le.mp hsize)]
    exact ⟨_, _, rfl⟩

/-- A sub-message that is changed in place twice is as the second change left it. -/
theorem placeProperty_placeProperty (m : Message) (i : Nat) (f : FieldInfo) (v w : Value) :
    placeProperty (placeProperty m i f v) i f w = placeProperty m i f w := by
  unfold placeProperty
  split
  · unfold Message.writeThrough
    cases f.presence with
    | oneof j => exact Message.ext_member (by simp [Message.setMember, Message.oneofState,
        Message.member]) rfl
    | _ => exact Message.ext_member (by simp [Message.setMember, Message.member]) rfl
  · rfl

end

/-! ## One occurrence or two -/

/-- The type of the messages that a singular field holds or that its handler takes. -/
def singularType (S : Schema) : PropertyType → Option MessageType
  | .message u => some (.named u)
  | .custom k false => (S.findHandler k).map Handler.proxy
  | _ => none

/-- A sub-message that comes in one occurrence of its field, or in two. -/
structure Split (env : Environment) (S : Schema) (t : MessageType) where
  before : List WireField
  whole : WireField
  first : WireField
  second : WireField
  after : List WireField
  p : List WireField
  q : List WireField
  index : Nat
  field : FieldInfo
  type : MessageType
  hfield : (S.propertyOrdering t).fields[index]? = some field
  htype : singularType S field.type = some type
  hwhole : whole.fieldNumber = field.fieldNumber ∧ Encloses env whole (p ++ q)
  hfirst : first.fieldNumber = field.fieldNumber ∧ Encloses env first p
  hsecond : second.fieldNumber = field.fieldNumber ∧ Encloses env second q
  hpayload : ∀ y ∈ p ++ q, Fits env S type y
  hpayloadRequired : RequiredPresent S type (p ++ q)
  hfits : ∀ y ∈ before ++ after, Fits env S t y
  hrequired : RequiredPresent S t (before ++ whole :: after)

namespace Split

variable {env : Environment} {S : Schema} {t : MessageType} {keep : Bool}

def joined (L : Split env S t) : List WireField := L.before ++ L.whole :: L.after

def split (L : Split env S t) : List WireField := L.before ++ L.first :: L.second :: L.after

/-- The field in two occurrences is accepted and decoded to the message that one occurrence makes. -/
def Merges (L : Split env S t) (s : Serializer) : Prop :=
  ∀ fuel, (L.joined.flatMap WireField.bytes).length < fuel →
    (L.split.flatMap WireField.bytes).length < fuel →
      ∃ s₁ s₂ m,
        s.deserialize env S fuel t (L.joined.flatMap WireField.bytes) = (s₁, m, .returned true) ∧
        s.deserialize env S fuel t (L.split.flatMap WireField.bytes) = (s₂, m, .returned true)

/-- The field is decoded into this message. -/
structure Enters (L : Split env S t) (d : Draft) (c : Cache) (m start : Message) : Prop where
  select : selectProperty S t L.index L.field d.cache d.message = (c, m, true)
  index : c.index = some L.index
  content : ∃ t', c.propertyValue = .message t' start

/-- A property of the sub-message that the second payload goes on with is stored as it is. -/
def Stores (L : Split env S t) (keep : Bool) : Prop :=
  ∀ d c m start r c' sub k, Decodes env S keep t L.before (.start S t) d →
    L.Enters d c m start → Decodes env S keep L.type L.p ⟨{}, start⟩ r →
    storeCachedValue S L.type r.cache r.message = (c', sub, true) →
    r.cache.index = some k → nextIndex S L.type L.q = some k →
      Rejoins env S keep L.type k L.q r ⟨{}, sub⟩

variable (L : Split env S t) {d : Draft} {c : Cache} {m start : Message}

/-- The field is found by its number. -/
theorem indexOfFieldNumber {x : WireField} (h : x.fieldNumber = L.field.fieldNumber) :
    (S.propertyOrdering t).indexOfFieldNumber x.fieldNumber = some L.index := by
  rw [h]
  exact indexOfFieldNumber_of_getElem? L.hfield

/-- The messages of a field without a handler are of the type it names. -/
theorem type_eq {u : Nat} (hu : L.field.type = .message u) : L.type = .named u := by
  have htype := L.htype
  rw [hu] at htype
  exact (Option.some.inj htype).symm

/-- Every sound draft enters the field with a well-formed message. -/
theorem exists_enters {u : Nat} (hu : L.field.type = .message u) (hd : d.Sound S t) :
    ∃ c m start, L.Enters d c m start ∧ WellFormed S L.type start := by
  obtain ⟨c, m, hselect, hindex, hproperty, -, -⟩ := selectProperty_spec hd.pending L.hfield
  have hsuits := hproperty.suits
  rw [hu] at hsuits
  obtain ⟨start, hv⟩ := hsuits
  have hstart := hproperty.sub _ _ hv
  rw [← L.type_eq hu] at hstart
  exact ⟨c, m, start, ⟨hselect, hindex, _, hv⟩, hstart⟩

/-- The draft with this sub-message. -/
def holding (u : Nat) (c : Cache) (m sub : Message) : Draft :=
  Draft.turned ⟨c, m⟩ L.index L.field c.mapEntry (.message u sub)

variable {L}

/-- An occurrence of the field is decoded as its payload is. -/
theorem Enters.decodes {u : Nat} (hu : L.field.type = .message u) (h : L.Enters d c m start)
    {x : WireField} {ys : List WireField}
    (hx : x.fieldNumber = L.field.fieldNumber ∧ Encloses env x ys) {r : Draft} {c' : Cache}
    {sub : Message} (hsub : Decodes env S keep L.type ys ⟨{}, start⟩ r)
    (hstore : storeCachedValue S L.type r.cache r.message = (c', sub, true))
    (hrequired : RequiredPresent S L.type ys) :
    Decodes env S keep t [x] d (L.holding u c m sub) := by
  rw [L.type_eq hu] at hsub hstore hrequired
  obtain ⟨t', hv⟩ := h.content
  obtain ⟨length, hpayload, hlength⟩ := hx.2.payload
  refine (decodes_known_iff hx.2.complete (L.indexOfFieldNumber hx.1) L.hfield).mpr
    ⟨c, m, _, _, h.select, ?_, rfl⟩
  rw [hv]
  exact .message hu ⟨length, ys, r, c', hpayload, hlength, hx.2.size, hsub, hstore, hrequired⟩

/-- Another occurrence goes on with the message that the first one made. -/
theorem Enters.again (h : L.Enters d c m start) (u : Nat) (sub : Message) :
    L.Enters (L.holding u c m sub) (L.holding u c m sub).cache (L.holding u c m sub).message sub :=
  ⟨by simp [selectProperty, holding, Draft.turned, h.index], h.index, u, rfl⟩

/-- Of two sub-messages held one after the other the last is held. -/
theorem holding_holding (u : Nat) (c : Cache) (m sub sub' : Message) :
    L.holding u (L.holding u c m sub).cache (L.holding u c m sub).message sub' =
      L.holding u c m sub' := by
  simp only [holding, Draft.turned, placeProperty_placeProperty]

/-- Where the field in two occurrences is accepted, each payload has the required fields. -/
theorem Merges.required {s : Serializer} {u : Nat} (hu : L.field.type = .message u)
    (h : L.Merges s) :
    RequiredPresent S L.type L.p ∧ RequiredPresent S L.type L.q := by
  have hnamed := L.type_eq hu
  obtain ⟨d, hbefore, hd⟩ := exists_decodes_of_fits s.deserializer.preserveUnknownFields
    (fun y hy => L.hfits y (List.mem_append_left _ hy)) (Draft.sound_start S t)
  obtain ⟨c, m, start, henters, hstart⟩ := L.exists_enters hu hd
  obtain ⟨r, hp, hr⟩ := exists_decodes_of_fits s.deserializer.preserveUnknownFields
    (fun y hy => L.hpayload y (List.mem_append_left _ hy)) (Draft.sound_new S _ hstart)
  obtain ⟨sub, hstore, hsub⟩ := hr.store
  obtain ⟨r', hq, hr'⟩ := exists_decodes_of_fits s.deserializer.preserveUnknownFields
    (fun y hy => L.hpayload y (List.mem_append_right _ hy)) (Draft.sound_new S _ hsub)
  obtain ⟨sub', hstore', -⟩ := hr'.store
  obtain ⟨fuel, hfuel, hfuel'⟩ : ∃ fuel, (L.joined.flatMap WireField.bytes).length < fuel ∧
      (L.split.flatMap WireField.bytes).length < fuel :=
    ⟨(L.joined.flatMap WireField.bytes).length + (L.split.flatMap WireField.bytes).length + 1,
      by omega, by omega⟩
  obtain ⟨s₁, s₂, m', -, haccepted⟩ := h fuel hfuel hfuel'
  have hpresent : RequiredPresent S L.type L.p := by
    by_contra hmissing
    obtain ⟨t', hv⟩ := henters.content
    obtain ⟨s', m'', hrejected⟩ := hbefore.rejected L.hfirst.2 (L.indexOfFieldNumber L.hfirst.1)
      L.hfield hu henters.select hv (hnamed ▸ hp) (hnamed ▸ hstore) (hnamed ▸ hmissing) hfuel'
    rw [split, hrejected] at haccepted
    cases haccepted
  refine ⟨hpresent, ?_⟩
  by_contra hmissing
  have hfirst := hbefore.append (henters.decodes hu L.hfirst hp hstore hpresent)
  have hagain := henters.again u sub
  obtain ⟨t', hv⟩ := hagain.content
  have hsplit : L.split = (L.before ++ [L.first]) ++ L.second :: L.after := by simp [split]
  rw [hsplit] at haccepted hfuel'
  obtain ⟨s', m'', hrejected⟩ := hfirst.rejected L.hsecond.2 (L.indexOfFieldNumber L.hsecond.1)
    L.hfield hu hagain.select hv (hnamed ▸ hq) (hnamed ▸ hstore') (hnamed ▸ hmissing) hfuel'
  rw [hrejected] at haccepted
  cases haccepted

/-- A sequence with the required fields still has them with the field in two occurrences. -/
theorem requiredPresent_split (L : Split env S t) : RequiredPresent S t L.split := by
  intro f hf hrequired
  obtain ⟨z, hz, hnumber⟩ := L.hrequired f hf hrequired
  rcases List.mem_append.mp hz with hz | hz
  · exact ⟨z, List.mem_append_left _ hz, hnumber⟩
  · rcases List.mem_cons.mp hz with rfl | hz
    · refine ⟨L.first, by simp [split], ?_⟩
      rw [L.hfirst.1, ← L.hwhole.1, hnumber]
    · exact ⟨z, by simp [split, hz], hnumber⟩

/-- Payloads with the required fields are decoded as one if the second one goes on with a property
that is stored as it is. -/
theorem Stores.merges {s : Serializer} {u : Nat} (hu : L.field.type = .message u)
    (h : L.Stores s.deserializer.preserveUnknownFields)
    (hjoined : (L.joined.flatMap WireField.bytes).length ≤ s.effectiveMaximumInputSize)
    (hsplit : (L.split.flatMap WireField.bytes).length ≤ s.effectiveMaximumInputSize)
    (hp : RequiredPresent S L.type L.p) (hq : RequiredPresent S L.type L.q) :
    L.Merges s := by
  intro fuel hfuel hfuel'
  obtain ⟨d, hbefore, hd⟩ := exists_decodes_of_fits s.deserializer.preserveUnknownFields
    (fun y hy => L.hfits y (List.mem_append_left _ hy)) (Draft.sound_start S t)
  obtain ⟨c, m, start, henters, hstart⟩ := L.exists_enters hu hd
  obtain ⟨r, hr, hrSound⟩ := exists_decodes_of_fits s.deserializer.preserveUnknownFields
    (fun y hy => L.hpayload y (List.mem_append_left _ hy)) (Draft.sound_new S _ hstart)
  obtain ⟨sub, hstore, -⟩ := hrSound.store
  obtain ⟨r', hr', hrSound'⟩ := exists_decodes_of_fits s.deserializer.preserveUnknownFields
    (fun y hy => L.hpayload y (List.mem_append_right _ hy)) hrSound
  obtain ⟨sub', hstore', -⟩ := hrSound'.store
  have hwritten : r.Written S L.type ⟨{}, sub⟩ := ⟨rfl, hstore⟩
  obtain ⟨r'', c'', hr'', hstore''⟩ := hwritten.splits hrSound
    (fun k hk hnext => h d c m start r {} sub k hbefore henters hr hstore hk hnext) hr' hstore'
  have hwhole := henters.decodes hu L.hwhole (hr.append hr') hstore' L.hpayloadRequired
  have hfirst := henters.decodes hu L.hfirst hr hstore hp
  have hsecond := (henters.again u sub).decodes hu L.hsecond hr'' hstore'' hq
  rw [holding_holding] at hsecond
  obtain ⟨e, hafter, he⟩ := exists_decodes_of_fits s.deserializer.preserveUnknownFields
    (fun y hy => L.hfits y (List.mem_append_right _ hy)) (hwhole.sound hd)
  obtain ⟨M, hM, -⟩ := he.store
  have hall := hbefore.append (hwhole.append hafter)
  have hall' := hbefore.append (hfirst.append (hsecond.append hafter))
  obtain ⟨s₁, ok₁, hresult₁, hok₁⟩ := hall.deserialize hM hjoined hfuel
  obtain ⟨s₂, ok₂, hresult₂, hok₂⟩ := hall'.deserialize hM hsplit hfuel'
  rw [hok₁.mpr L.hrequired] at hresult₁
  rw [hok₂.mpr L.requiredPresent_split] at hresult₂
  exact ⟨s₁, s₂, M, hresult₁, hresult₂⟩

/-- The first occurrence of a field is decoded into a new message. -/
theorem Enters.start_eq {u : Nat} (hu : L.field.type = .message u)
    (h : L.Enters (.start S t) c m start) : start = S.defaultMessage L.type := by
  rw [L.type_eq hu]
  obtain ⟨t', hv⟩ := h.content
  have hselect := h.select
  have hstored : (S.defaultMessage t).member (.field L.index) = L.field.storedDefault S := by
    simp [Schema.defaultMessage, Message.member, L.hfield]
  have hnull : L.field.storedDefault S = .null := by
    unfold FieldInfo.storedDefault
    rw [hu]
    cases L.field.presence <;> rfl
  have hvalue : (S.initializedProperty (S.defaultMessage t) L.index L.field).2 =
      .message u (S.defaultMessage (.named u)) := by
    unfold Schema.initializedProperty
    rw [hu]
    cases hpresence : L.field.presence with
    | oneof j => simp [Message.oneofState, Schema.defaultMessage, Message.member,
        Schema.ensureMessage]
    | _ => simp [hstored, hnull, Schema.ensureMessage]
  simp only [Draft.start, selectProperty, storeCachedValue, reduceCtorEq, if_false, if_true,
    Prod.mk.injEq] at hselect
  rw [← hselect.1, hvalue] at hv
  cases hv
  rfl

/-- Setters that tell the values in both payloads apart store them, in a new sub-message. -/
theorem stores_of_distinguishes (L : Split env S t) {u : Nat} (hu : L.field.type = .message u)
    (hbefore : L.before = []) (hd : ∀ g ∈ (S.propertyOrdering L.type).fields,
      Distinguishes env S g (L.p ++ L.q)) : L.Stores keep := by
  intro d c m start r c' sub k hdecodes henters hr hstore hk hnext
  rw [hbefore] at hdecodes
  obtain rfl := hdecodes.eq_of_nil
  obtain rfl := henters.start_eq hu
  have hsound := Draft.sound_start S L.type
  have hrSound := hr.sound hsound
  let fields := fieldsOf S L.type k L.q
  have hsub : (L.p ++ fields).Sublist (L.p ++ L.q) :=
    (List.Sublist.refl _).append (List.takeWhile_sublist _)
  have hfields (n : Nat) (g : FieldInfo) (hg : (S.propertyOrdering L.type).fields[n]? =
      some g) : Distinguishes env S g (L.p ++ fields) :=
    (hd g (List.mem_of_getElem? hg)).of_sublist hsub
  refine ⟨?_, exactAlong_of_distinguishes (fun n g _ hg => hfields n g hg) hr, ?_⟩
  · have hbetween : ExactAlong env S keep L.type (fun n => n = k) [] r :=
      exactAlong_of_distinguishes (fun n g _ hg => (hfields n g hg).of_sublist
        ((List.Sublist.refl _).append (List.nil_sublist _))) hr
    exact hbetween.head
  · obtain ⟨M, hM, hformed⟩ := hrSound.store
    rw [hstore] at hM
    cases hM
    refine @exactAlong_of_tame env S (L.p ++ fields) L.p keep _ ⟨{}, sub⟩ _ _
      (Draft.sound_new S _ hformed) (fun n g hn hg => ⟨hfields n g hg, fun hpure => ?_⟩) rfl
    subst hn
    have htame : Tame env S g (L.p ++ fields) ([] ++ L.p) n r :=
      (tame_start hg).run (hfields n g hg) rfl hsound hg hpure hr
    refine ⟨?_, fun hi => (by cases hi)⟩
    rw [hrSound.store_cached hk hg hstore, htame.exact (hfields n g hg) hrSound hg hk,
      storedIn_writeProperty]
    exact (htame.cached hk).1.storedValue (hrSound.property hk hg).suits

end Split

/-- A field in two occurrences is decoded as in one if its type has no handler and both payloads have
the required fields, where a property that the second one goes on with is stored as it is. A field
without a handler is so decoded only if both payloads have them. -/
theorem merges_required (env : Environment) (S : Schema) (t : MessageType) (L : Split env S t)
    (s : Serializer)
    (hjoined : (L.joined.flatMap WireField.bytes).length ≤ s.effectiveMaximumInputSize)
    (hsplit : (L.split.flatMap WireField.bytes).length ≤ s.effectiveMaximumInputSize) :
    (∀ u, L.field.type = .message u → L.Merges s →
      RequiredPresent S L.type L.p ∧ RequiredPresent S L.type L.q) ∧
    (∀ u, L.field.type = .message u → RequiredPresent S L.type L.p → RequiredPresent S L.type L.q →
      L.Stores s.deserializer.preserveUnknownFields → L.Merges s) :=
  ⟨fun _ hu h => h.required hu, fun _ hu hp hq h => h.merges hu hjoined hsplit hp hq⟩

/-- A message type with a sub-message that has required fields, and one with an optional number. -/
def chartSchema : Schema where
  message
    | 0 => ⟨"Chart", [
        { fieldNumber := 1, jsonName := "range", type := .message 1 },
        { fieldNumber := 2, jsonName := "total", type := .message 2 }],
        by decide, by decide, by decide⟩
    | 1 => ⟨"Range", [
        { fieldNumber := 1, jsonName := "lower", type := .scalar .int32, presence := .required },
        { fieldNumber := 2, jsonName := "upper", type := .scalar .int32, presence := .required }],
        by decide, by decide, by decide⟩
    | 2 => ⟨"Total", [
        { fieldNumber := 1, jsonName := "amount", type := .scalar .double, presence := .optional }],
        by decide, by decide, by decide⟩
    | _ => .withoutFields "Empty"
  enumKeys _ := []
  findHandler _ := none
  typeName _ := ""

def lowerField : WireField := ⟨1, .varint, [0x08], [0x01]⟩

def upperField : WireField := ⟨2, .varint, [0x10], [0x02]⟩

/-- An occurrence of a field of the chart with a short payload. -/
def chartField (number : Nat) (header : UInt8) (ys : List WireField) : WireField :=
  ⟨number, .lengthDelimited, [header],
    [UInt8.ofNat (ys.flatMap WireField.bytes).length] ++ ys.flatMap WireField.bytes⟩

/-- A field of the sample encloses the fields in its payload. -/
theorem encloses_chartField {number : Nat} {header : UInt8} (ys : List WireField)
    (hpos : 0 < number) (hle : number ≤ 2 ^ 29 - 1)
    (hheader : ∃ value, IsVarint nullTerminated [header] value ∧
      (BitVec.setWidth 32 value).toNat = number * 8 + WireType.lengthDelimited.number)
    (hlength : IsVarint nullTerminated [UInt8.ofNat (ys.flatMap WireField.bytes).length]
      (BitVec.ofNat 64 (ys.flatMap WireField.bytes).length))
    (hsize : (ys.flatMap WireField.bytes).length ≤ maxByteArraySize) :
    Encloses nullTerminated (chartField number header ys) ys :=
  ⟨⟨hpos, hle, hheader, .lengthDelimited _ _ hlength hsize⟩, ⟨_, rfl, hlength⟩, hsize⟩

/-- The lower bound of the sample fits. -/
theorem fits_lowerField : Fits nullTerminated chartSchema (.named 1) lowerField :=
  .plain (i := 0) ⟨by decide, by decide, ⟨8, by decide, by decide⟩, .varint _ 1 (by decide)⟩
    (by decide) rfl (.scalar (k := .int32) rfl .null)

/-- The upper bound of the sample fits. -/
theorem fits_upperField : Fits nullTerminated chartSchema (.named 1) upperField :=
  .plain (i := 1) ⟨by decide, by decide, ⟨16, by decide, by decide⟩, .varint _ 2 (by decide)⟩
    (by decide) rfl (.scalar (k := .int32) rfl .null)

/-- With both bounds, no required field of the sample is missing. -/
theorem requiredPresent_range {ys : List WireField} (h : lowerField ∈ ys) (h' : upperField ∈ ys) :
    RequiredPresent chartSchema (.named 1) ys := by
  intro f hf _
  rcases List.mem_cons.mp hf with rfl | hf
  · exact ⟨lowerField, h, rfl⟩
  · obtain rfl := List.mem_singleton.mp hf
    exact ⟨upperField, h', rfl⟩

/-- Without a required field none is missing. -/
theorem requiredPresent_of_optional {S : Schema} {t : MessageType} (ys : List WireField)
    (h : ∀ f ∈ (S.propertyOrdering t).fields, f.fieldFlags.required = false) :
    RequiredPresent S t ys := by
  intro f hf hrequired
  rw [h f hf] at hrequired
  cases hrequired

/-- The range, its two limits sent apart from each other. -/
def apartRange : Split nullTerminated chartSchema (.named 0) where
  before := []
  whole := chartField 1 0x0A [lowerField, upperField]
  first := chartField 1 0x0A [lowerField]
  second := chartField 1 0x0A [upperField]
  after := []
  p := [lowerField]
  q := [upperField]
  index := 0
  field := { fieldNumber := 1, jsonName := "range", type := .message 1 }
  type := .named 1
  hfield := rfl
  htype := rfl
  hwhole := ⟨rfl, encloses_chartField _ (by decide) (by decide) ⟨10, by decide, by decide⟩
    (by decide) (by decide)⟩
  hfirst := ⟨rfl, encloses_chartField _ (by decide) (by decide) ⟨10, by decide, by decide⟩
    (by decide) (by decide)⟩
  hsecond := ⟨rfl, encloses_chartField _ (by decide) (by decide) ⟨10, by decide, by decide⟩
    (by decide) (by decide)⟩
  hpayload := by simpa using ⟨fits_lowerField, fits_upperField⟩
  hpayloadRequired := requiredPresent_range (by simp) (by simp)
  hfits := by simp
  hrequired := requiredPresent_of_optional _ (by decide)

/-- The total, with an amount in each of two payloads. -/
def twoTotals (amount amount' : Bytes) (h : amount.length = 8) (h' : amount'.length = 8) :
    Split nullTerminated chartSchema (.named 0) where
  before := []
  whole := chartField 2 0x12 [amountField amount, amountField amount']
  first := chartField 2 0x12 [amountField amount]
  second := chartField 2 0x12 [amountField amount']
  after := []
  p := [amountField amount]
  q := [amountField amount']
  index := 1
  field := { fieldNumber := 2, jsonName := "total", type := .message 2 }
  type := .named 2
  hfield := rfl
  htype := rfl
  hwhole := ⟨rfl, encloses_chartField _ (by decide) (by decide) ⟨18, by decide, by decide⟩
    (by simp [WireField.bytes, amountField, h, h']; decide)
    (by simp [WireField.bytes, amountField, h, h']; decide)⟩
  hfirst := ⟨rfl, encloses_chartField _ (by decide) (by decide) ⟨18, by decide, by decide⟩
    (by simp [WireField.bytes, amountField, h]; decide)
    (by simp [WireField.bytes, amountField, h]; decide)⟩
  hsecond := ⟨rfl, encloses_chartField _ (by decide) (by decide) ⟨18, by decide, by decide⟩
    (by simp [WireField.bytes, amountField, h']; decide)
    (by simp [WireField.bytes, amountField, h']; decide)⟩
  hpayload := by
    have hfits (a : Bytes) (ha : a.length = 8) :
        Fits nullTerminated chartSchema (.named 2) (amountField a) :=
      .plain (i := 0) ⟨(by decide : 0 < 1), (by decide : 1 ≤ 2 ^ 29 - 1),
        ⟨9, (by decide : IsVarint nullTerminated [0x09] 9), rfl⟩, .fixed64 _ ha⟩ rfl rfl
        (.scalar (k := .double) rfl .null)
    simpa using ⟨hfits amount h, hfits amount' h'⟩
  hpayloadRequired := requiredPresent_of_optional _ (by decide)
  hfits := by simp
  hrequired := requiredPresent_of_optional _ (by decide)

/-- One amount is stored like the other. -/
theorem stores_twoTotals (keep : Bool) :
    (twoTotals plusZero plusZero rfl rfl).Stores keep := by
  refine Split.stores_of_distinguishes _ rfl rfl fun g hg => ?_
  obtain rfl := List.mem_singleton.mp hg
  refine ⟨fun _ a b ha hb _ => ?_, fun _ _ htype => (by cases htype),
    fun _ hhandler => (by cases hhandler)⟩
  have hone {c : Scalar} (hc : Compared nullTerminated
      { fieldNumber := 1, jsonName := "amount", type := .scalar .double, presence := .optional }
      [amountField plusZero, amountField plusZero] c) : c = ⟨.double, (0 : BitVec 64)⟩ := by
    cases hc with
    | carried hx hnumber hcarries =>
      obtain rfl : _ = amountField plusZero := by simpa using hx
      cases hcarries with
      | scalar htype =>
        cases htype
        rfl
      | _ htype => cases htype
    | initial htype hpresence => cases hpresence
  rw [hone ha, hone hb]

/-- Two occurrences that each have their required fields are merged. -/
theorem merges_required_totals : (twoTotals plusZero plusZero rfl rfl).Merges .initial :=
  (merges_required nullTerminated chartSchema (.named 0) (twoTotals plusZero plusZero rfl rfl)
    .initial (by decide) (by decide)).2 2 rfl (requiredPresent_of_optional _ (by decide))
    (requiredPresent_of_optional _ (by decide)) (stores_twoTotals _)

/-- A message type with an `Any`. -/
def letterSchema : Schema where
  message
    | 0 => ⟨"Letter", [{ fieldNumber := 1, jsonName := "enclosure", type := .custom 0 false }],
        by decide, by decide, by decide⟩
    | _ => WellKnown.anyDescriptor
  enumKeys _ := []
  findHandler _ := some (WellKnown.Any.handler 1)
  typeName _ := ""

/-- The type URL `a`. -/
def enclosedTypeUrl : WireField := ⟨1, .lengthDelimited, [0x0A], [0x01, 0x61]⟩

/-- The value `b`. -/
def enclosedValue : WireField := ⟨2, .lengthDelimited, [0x12], [0x01, 0x62]⟩

/-- The enclosure, its type URL and its value sent apart from each other. -/
def apartAny : Split nullTerminated letterSchema (.named 0) where
  before := []
  whole := chartField 1 0x0A [enclosedTypeUrl, enclosedValue]
  first := chartField 1 0x0A [enclosedTypeUrl]
  second := chartField 1 0x0A [enclosedValue]
  after := []
  p := [enclosedTypeUrl]
  q := [enclosedValue]
  index := 0
  field := { fieldNumber := 1, jsonName := "enclosure", type := .custom 0 false }
  type := .named 1
  hfield := rfl
  htype := rfl
  hwhole := ⟨rfl, encloses_chartField _ (by decide) (by decide) ⟨10, by decide, by decide⟩
    (by decide) (by decide)⟩
  hfirst := ⟨rfl, encloses_chartField _ (by decide) (by decide) ⟨10, by decide, by decide⟩
    (by decide) (by decide)⟩
  hsecond := ⟨rfl, encloses_chartField _ (by decide) (by decide) ⟨10, by decide, by decide⟩
    (by decide) (by decide)⟩
  hpayload := by
    have htypeUrl : Fits nullTerminated letterSchema (.named 1) enclosedTypeUrl :=
      .plain (i := 0) ⟨by decide, by decide, ⟨10, by decide, by decide⟩,
        .lengthDelimited [0x01] [0x61] (by decide) (by decide)⟩ (by decide) rfl
        (.scalar (k := .string) rfl .null)
    have hvalue : Fits nullTerminated letterSchema (.named 1) enclosedValue :=
      .plain (i := 1) ⟨by decide, by decide, ⟨18, by decide, by decide⟩,
        .lengthDelimited [0x01] [0x62] (by decide) (by decide)⟩ (by decide) rfl
        (.scalar (k := .bytes) rfl .null)
    simpa using ⟨htypeUrl, hvalue⟩
  hpayloadRequired := requiredPresent_of_optional _ (by decide)
  hfits := by simp
  hrequired := requiredPresent_of_optional _ (by decide)

/-- The enclosure of a letter. -/
def enclosure (m : Message) : WellKnown.Any :=
  match m.member (.field 0) with
  | .custom _ content => WellKnown.Any.ofContent content
  | _ => {}

/-- The amount in the total of a chart. -/
def totalAmount (m : Message) : Value :=
  match m.member (.field 1) with
  | .message _ total => total.member (.field 0)
  | _ => .null

/-- A range without its upper limit is refused although the limit comes with the next occurrence,
a negative zero is not stored behind a positive one, and an `Any` loses the type URL that came with
the occurrence before. -/
theorem not_merges_chart :
    ¬apartRange.Merges .initial ∧ ¬(twoTotals plusZero minusZero rfl rfl).Merges .initial ∧
      ¬apartAny.Merges .initial := by
  refine ⟨?_, ?_, ?_⟩
  · intro h
    obtain ⟨x, hx, hnumber⟩ := (h.required rfl).1
      { fieldNumber := 2, jsonName := "upper", type := .scalar .int32, presence := .required }
      (by decide) rfl
    obtain rfl := List.mem_singleton.mp hx
    cases hnumber
  · intro h
    obtain ⟨s₁, s₂, m, h₁, h₂⟩ := h 60 (by decide) (by decide)
    have hjoined : .scalar ⟨.double, 0x8000000000000000#64⟩ = totalAmount m :=
      congrArg (fun result : Serializer × Message × Outcome => totalAmount result.2.1) h₁
    have hsplit : .scalar ⟨.double, 0#64⟩ = totalAmount m :=
      congrArg (fun result : Serializer × Message × Outcome => totalAmount result.2.1) h₂
    rw [← hjoined] at hsplit
    exact absurd (Value.scalar.inj hsplit) (by decide)
  · intro h
    obtain ⟨s₁, s₂, m, h₁, h₂⟩ := h 60 (by decide) (by decide)
    have hjoined := congrArg (fun r : Serializer × Message × Outcome => (enclosure r.2.1).typeUrl) h₁
    have hsplit := congrArg (fun r : Serializer × Message × Outcome => (enclosure r.2.1).typeUrl) h₂
    exact absurd (hjoined.trans hsplit.symm) (by decide +kernel)

end QtGrpc.Protobuf.Binary
