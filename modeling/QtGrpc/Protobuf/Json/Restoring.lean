import QtGrpc.Protobuf.Binary.RoundTrip
import QtGrpc.Protobuf.Json.Conversions
import QtGrpc.Protobuf.Json.Stack

/-!
# Objects that the JSON decoder reads

What the decoder makes of an object that has a value for every property of a message which is not
the default. The loop takes the fields in their order: a value is read at once, the items of a list
of messages and the entries of a map one by one, and the object of a nested message is popped where
no field is left in it.
-/

namespace QtGrpc.Protobuf.Json

open Binary (Draft Rebuilding Blank IsFresh IsInitial SameElsewhere StandsFor)

/-- A value that is neither null nor a list nor an object. -/
def isSimple : JsonValue → Bool
  | .bool _ | .integer _ | .double _ | .string _ => true
  | _ => false

section

variable (env : JsonEnvironment) (custom : CustomDeserializers) (S : Schema)

/-- The keys of different fields of a message are told apart, also by their spelling with
underscores. -/
def TellsApart (d : MessageDescriptor) : Prop :=
  ∀ (i j : Nat) (f g : FieldInfo), d.fields[i]? = some f → d.fields[j]? = some g →
    keyMatches env f.jsonName g.jsonName = true → i = j

/-- With this object on top of the stack, whose fields from an index on are left, a draft of a
message becomes another message, if there is fuel enough. The object is popped. -/
def Ends (t : MessageType) (obj : JsonObject) (n : Nat) (p : Draft) (m' : Message) : Prop :=
  ∀ fuel seen s rest scalarValue, s.state = ⟨obj, n, scalarValue⟩ :: rest →
    (deserializeLoop (format env custom S) S fuel t seen p.cache s p.message).2.2 ≠ .outOfFuel →
    ∃ s', deserializeLoop (format env custom S) S fuel t seen p.cache s p.message =
        (s', m', .returned true) ∧ s'.state = rest ∧ s'.lastError = s.lastError

/-- From this object the decoder makes a message of the same content. -/
def Reads (t : MessageType) (m : Message) (obj : JsonObject) : Prop :=
  ∀ start, Blank S t start → ∃ m', Ends env custom S t obj 0 ⟨{}, start⟩ m' ∧ m.Same S t m'

/-- From this value a nested message is read. -/
inductive ReadsMessage (t : Nat) (m : Message) : JsonValue → Prop where
  | object {o : JsonObject} (h : Reads env custom S (.named t) m o) : ReadsMessage t m (.object o)
  | custom {json : JsonValue} {deserializer : Message → JsonValue → Message × Bool} {m' : Message}
      (hsimple : isSimple json = true) (hfind : custom t = some deserializer)
      (h : deserializer (S.defaultMessage (.named t)) json = (m', true))
      (hsame : m.Same S (.named t) m') : ReadsMessage t m json

/-- From this member an entry of a map is read. -/
def ReadsEntry (key : ScalarKind) (value : MapValue) (e : Scalar × Value)
    (member : String × JsonValue) : Prop :=
  ∃ entry, StandsFor e entry ∧ Reads env custom S (.mapEntry key value) entry
    [("key", .string member.1), ("value", member.2)]

/-- A property is the default of its field, or it is read from a value. -/
inductive Restores (f : FieldInfo) : Value → Option JsonValue → Prop where
  | elided {value : Value} (hpresence : f.presence ≠ .mapEntry)
      (hsame : value.Same S (f.storedDefault S)) : Restores f value none
  | scalar {k : ScalarKind} {v : k.Carrier} {json : JsonValue} (htype : f.type = .scalar k)
      (hnull : json.isNull = false) (h : deserializeScalar env k json = (v, true)) :
      Restores f (.scalar ⟨k, v⟩) (some json)
  | list {k : ScalarKind} {vs : List k.Carrier} {items : List JsonValue} (htype : f.type = .list k)
      (h : deserializeList env k (.array items) = (.scalars k vs, true)) :
      Restores f (.scalars k vs) (some (.array items))
  | enumerator {e : Nat} {v : BitVec 32} {key : String} (htype : f.type = .enum e)
      (h : S.keyToValue e key = some v) : Restores f (.enumerator e v) (some (.string key))
  | enumerators {e : Nat} {vs : List (BitVec 32)} {items : List JsonValue} {keys : List String}
      (htype : f.type = .enumList e)
      (h : deserializeList env .string (.array items) = (.scalars .string keys, true))
      (hkeys : keys.mapM (S.keyToValue e) = some vs) :
      Restores f (.enumerators e vs) (some (.array items))
  | message {t : Nat} {m : Message} {json : JsonValue} (htype : f.type = .message t)
      (h : ReadsMessage env custom S t m json) : Restores f (.message t m) (some json)
  | messages {t : Nat} {ms : List Message} {items : List JsonValue} (htype : f.type = .messageList t)
      (hne : items ≠ []) (h : List.Forall₂ (ReadsMessage env custom S t) ms items) :
      Restores f (.messages t ms) (some (.array items))
  | entries {key : ScalarKind} {value : MapValue} {entries ordered : List (Scalar × Value)}
      {members : JsonObject} (htype : f.type = .hash key value) (hkey : key.isMapKey = true)
      (hne : members ≠ []) (hentries : ∀ e ∈ entries, e.1.1 = key ∧ e.2.IsOf (.ofMapValue value))
      (hnodup : (entries.map Prod.fst).Nodup) (hperm : ordered.Perm entries)
      (h : List.Forall₂ (ReadsEntry env custom S key value) ordered members) :
      Restores f (.hash entries) (some (.object members))

/-- An object with a value for every property that is not the default, and no other keys. -/
structure RestoresAll (t : MessageType) (m : Message) (o : JsonObject) : Prop where
  properties : ∀ i f, (S.propertyOrdering t).fields[i]? = some f →
    Restores env custom S f (m.messageProperty i f) (o.lookup f.jsonName)
  keys : ∀ key, (∀ f ∈ (S.propertyOrdering t).fields, f.jsonName ≠ key) → o.lookup key = none

end

section

variable {env : JsonEnvironment} {custom : CustomDeserializers} {S : Schema} {t : MessageType}
  {f : FieldInfo} {m m₁ m' : Message} {obj obj' : JsonObject} {n n' i : Nat} {p q : Draft}

/-! ## Keys -/

/-- An object has the keys that are found in it. -/
theorem mem_keys_iff {o : JsonObject} {key : String} : key ∈ o.keys ↔ o.lookup key ≠ none := by
  induction o with
  | nil => simp
  | cons member o ih =>
    obtain ⟨k, v⟩ := member
    by_cases hk : key = k
    · simp [hk, List.lookup]
    · have hne : (key == k) = false := by simpa using hk
      rw [JsonObject.keys_cons, List.mem_cons, List.lookup, hne]
      simp [hk, ih]

/-- The value of a key that is found is the one that was found. -/
theorem value_of_lookup {o : JsonObject} {key : String} {json : JsonValue}
    (h : o.lookup key = some json) : o.value key = json := by
  rw [JsonObject.value, h]
  rfl

/-- The first member has its key. -/
theorem lookup_member (k key : String) (v : JsonValue) (o : JsonObject) :
    ((k, v) :: o).lookup key = if key = k then some v else o.lookup key := by
  by_cases hkey : key = k
  · simp [hkey]
  · have hne : (key == k) = false := by simpa using hkey
    rw [List.lookup_cons, hne, if_neg hkey]

/-- A replaced value is found under its key, and the others under theirs. -/
theorem lookup_replace (o : JsonObject) {key : String} (v : JsonValue) (h : key ∈ o.keys)
    (key' : String) : (o.replace key v).lookup key' = if key' = key then some v else o.lookup key' := by
  induction o with
  | nil => cases h
  | cons member o ih =>
    obtain ⟨k, w⟩ := member
    by_cases hk : k = key
    · subst hk
      simp only [JsonObject.replace, if_true, lookup_member]
      split <;> rfl
    · simp only [JsonObject.replace, if_neg hk, lookup_member,
        ih (JsonObject.mem_keys_of_cons h hk)]
      by_cases hkey : key' = k
      · simp [hkey, hk]
      · simp [hkey]

/-- So is a new one. -/
theorem lookup_insertNew (o : JsonObject) {key : String} (v : JsonValue) (h : key ∉ o.keys)
    (key' : String) : (o.insertNew key v).lookup key' = if key' = key then some v else o.lookup key' := by
  induction o with
  | nil => simp [JsonObject.insertNew, lookup_member]
  | cons member o ih =>
    obtain ⟨k, w⟩ := member
    rw [JsonObject.keys_cons, List.mem_cons, not_or] at h
    unfold JsonObject.insertNew
    split
    · rw [lookup_member]
    · simp only [lookup_member, ih h.2]
      by_cases hkey : key' = k
      · have hne : ¬k = key := fun heq => h.1 heq.symm
        simp [hkey, hne]
      · simp [hkey]

/-- An inserted value is found under its key, and the others as before. -/
theorem lookup_insert (o : JsonObject) (key : String) (v : JsonValue) (key' : String) :
    (o.insert key v).lookup key' = if key' = key then some v else o.lookup key' := by
  unfold JsonObject.insert
  split
  · exact lookup_replace o v ‹_› key'
  · exact lookup_insertNew o v ‹_› key'

/-- A value for a field adds no key that is not of a field. -/
theorem lookup_insert_none {d : MessageDescriptor} (hf : d.fields[n]? = some f)
    (hkeys : ∀ key, (∀ g ∈ d.fields, g.jsonName ≠ key) → obj.lookup key = none) {v : JsonValue}
    (key : String) (hkey : ∀ g ∈ d.fields, g.jsonName ≠ key) :
    (obj.insert f.jsonName v).lookup key = none := by
  have hne : key ≠ f.jsonName := (hkey f (List.mem_of_getElem? hf)).symm
  rw [lookup_insert, if_neg hne, hkeys key hkey]

variable (env) in
/-- The name of a field is a key of the field. -/
theorem keyMatches_self (name : String) : keyMatches env name name = true := by
  simp [keyMatches]

/-- A key is looked up by the name of its field. -/
theorem findKey_of_tellsApart {d : MessageDescriptor} (hd : TellsApart env d) {o : JsonObject}
    (hkeys : ∀ key, (∀ f ∈ d.fields, f.jsonName ≠ key) → o.lookup key = none)
    (hf : d.fields[i]? = some f) :
    findKey env o f.jsonName = if o.lookup f.jsonName = none then none else some f.jsonName := by
  have honly : ∀ key ∈ o.keys, keyMatches env f.jsonName key = true → key = f.jsonName := by
    intro key hkey hmatches
    by_contra hne
    have hfield : ∃ g ∈ d.fields, g.jsonName = key := by
      by_contra hnone
      exact mem_keys_iff.mp hkey (hkeys key fun g hg heq => hnone ⟨g, hg, heq⟩)
    obtain ⟨g, hg, rfl⟩ := hfield
    obtain ⟨j, hj⟩ := List.mem_iff_getElem?.mp hg
    obtain rfl := hd i j f g hf hj hmatches
    rw [hf] at hj
    cases hj
    exact hne rfl
  unfold findKey
  split
  · rename_i hnone
    apply List.find?_eq_none.mpr
    intro key hkey hmatches
    rw [honly key hkey hmatches] at hkey
    exact mem_keys_iff.mp hkey hnone
  · rename_i hsome
    cases hfind : o.keys.find? (keyMatches env f.jsonName) with
    | none =>
      have hmem := mem_keys_iff.mpr hsome
      exact absurd (keyMatches_self env f.jsonName) (List.find?_eq_none.mp hfind _ hmem)
    | some key =>
      rw [honly key (List.mem_of_find?_eq_some hfind) (List.find?_some hfind)]

/-! ## Steps of the loop -/

/-- A field at which nothing is left to read is passed by. -/
theorem Ends.skip (hf : (S.propertyOrdering t).fields[n]? = some f)
    (hskip : findField env ((S.propertyOrdering t).fields.drop n) ⟨obj, n, some .null⟩ =
      findField env ((S.propertyOrdering t).fields.drop (n + 1)) ⟨obj, n + 1, some .null⟩)
    (h : Ends env custom S t obj (n + 1) p m') : Ends env custom S t obj n p m' := by
  intro fuel seen s rest scalarValue hstate hfuel
  let s₁ : Deserializer := { s with state := ⟨obj, n + 1, scalarValue⟩ :: rest }
  have hfields : ¬(S.propertyOrdering t).fields.length = 0 :=
    Nat.ne_of_gt (Nat.zero_lt_of_lt (List.getElem?_eq_some_iff.mp hf).1)
  have hnext : nextFieldIndex env S t s = nextFieldIndex env S t s₁ := by
    simp only [nextFieldIndex, Deserializer.met, hstate, hskip, s₁, if_neg hfields]
  have hloop : ∀ k, deserializeLoop (format env custom S) S (k + 1) t seen p.cache s p.message =
      deserializeLoop (format env custom S) S (k + 1) t seen p.cache s₁ p.message := by
    intro k
    rw [deserializeLoop_succ, deserializeLoop_succ]
    simp only [format, hnext]
  cases fuel with
  | zero => exact absurd rfl hfuel
  | succ fuel =>
    rw [hloop] at hfuel ⊢
    exact h (fuel + 1) seen s₁ rest scalarValue rfl hfuel

/-- Where no field is left the property in the cache is stored. -/
theorem Ends.done (hfields : (S.propertyOrdering t).fields ≠ [])
    (hn : (S.propertyOrdering t).fields.length ≤ n)
    (hstore : storeCachedValue S t p.cache p.message = ({}, m', true)) :
    Ends env custom S t obj n p m' := by
  intro fuel seen s rest scalarValue hstate hfuel
  cases fuel with
  | zero => exact absurd rfl hfuel
  | succ fuel =>
    have hended : Ended env S t ⟨obj, n, scalarValue⟩ := by
      rw [Ended, List.drop_eq_nil_of_le hn]
      rfl
    have hnext := nextFieldIndex_of_pops hstate hfields hended
    refine ⟨{ s.met .asked with state := rest }, ?_, rfl, rfl⟩
    rw [deserializeLoop_succ]
    simp only [format, hnext, finishMessage, hstore, checkRequiredFields, Bool.not_false,
      Bool.true_or, if_true]

/-- What `nextFieldIndex` leaves on the stack with a field that was found. -/
def Found.Leaves : Found → List JsonState → Nat → Prop
  | .scalar top i .., stack, j => stack = [top] ∧ j = i
  | .object pushed top i .., stack, j => stack = [{ obj := pushed }, top] ∧ j = i
  | _, _, _ => False

/-- `nextFieldIndex` answers with the field that its loop found. -/
theorem nextFieldIndex_of_leaves {s : Deserializer} {scalarValue : Option JsonValue}
    {rest stack : List JsonState} {found : Found}
    (hfields : (S.propertyOrdering t).fields ≠ []) (hstate : s.state = ⟨obj, n, scalarValue⟩ :: rest)
    (hfound : findField env ((S.propertyOrdering t).fields.drop n) ⟨obj, n, some .null⟩ = found)
    (hleaves : found.Leaves stack i) :
    ∃ s', nextFieldIndex env S t s = (s', .field i) ∧ s'.state = stack ++ rest ∧
      s'.lastError = s.lastError := by
  have hlength : ¬(S.propertyOrdering t).fields.length = 0 := by simpa using hfields
  simp only [nextFieldIndex, if_neg hlength, Deserializer.met, hstate, hfound]
  cases found with
  | ended => exact hleaves.elim
  | wrongShape => exact hleaves.elim
  | scalar top j =>
    obtain ⟨rfl, rfl⟩ := hleaves
    exact ⟨_, rfl, rfl, rfl⟩
  | object pushed top j =>
    obtain ⟨rfl, rfl⟩ := hleaves
    exact ⟨_, rfl, rfl, rfl⟩

/-- One iteration of the loop that takes a field in. -/
theorem Ends.step {found : Found} {stack : List JsonState} {c : Cache}
    (hf : (S.propertyOrdering t).fields[i]? = some f)
    (hfound : findField env ((S.propertyOrdering t).fields.drop n) ⟨obj, n, some .null⟩ = found)
    (hleaves : found.Leaves stack i)
    (hselect : selectProperty S t i f p.cache p.message = (c, m₁, true))
    (hproperty : ∀ fuel s rest, s.state = stack ++ rest →
      ∃ r, deserializeProperty (format env custom S) S
          (deserializeMessageField (format env custom S) S fuel) i f c s m₁ = r ∧
        (r.stop = some .outOfFuel ∨ r.stop = none ∧ r.cache = q.cache ∧ r.message = q.message ∧
          r.state.lastError = s.lastError ∧
            ∃ scalarValue, r.state.state = ⟨obj', n', scalarValue⟩ :: rest))
    (h : Ends env custom S t obj' n' q m') : Ends env custom S t obj n p m' := by
  intro fuel seen s rest scalarValue hstate hfuel
  cases fuel with
  | zero => exact absurd rfl hfuel
  | succ fuel =>
    have hfields : (S.propertyOrdering t).fields ≠ [] := by
      intro hnil
      rw [hnil] at hf
      cases hf
    obtain ⟨s₁, hnext, hstate₁, herror₁⟩ := nextFieldIndex_of_leaves hfields hstate hfound hleaves
    obtain ⟨r, hr, hresult⟩ := hproperty fuel s₁ rest hstate₁
    have hstopped (hstop : r.stop = some .outOfFuel) :
        (deserializeLoop (format env custom S) S (fuel + 1) t seen p.cache s p.message).2.2 =
          .outOfFuel := by
      subst hr
      rw [deserializeLoop_succ]
      simp only [format] at hstop
      simp only [format, hnext, hf, hselect, hstop]
    have hrunning (hstop : r.stop = none) :
        deserializeLoop (format env custom S) S (fuel + 1) t seen p.cache s p.message =
          deserializeLoop (format env custom S) S fuel t (i :: seen) r.cache r.state r.message := by
      subst hr
      rw [deserializeLoop_succ]
      simp only [format] at hstop
      simp only [format, hnext, hf, hselect, hstop]
    rcases hresult with hstop | ⟨hstop, hcache, hmessage, herror, scalarValue', hstate'⟩
    · exact absurd (hstopped hstop) hfuel
    · rw [hrunning hstop, hcache, hmessage] at hfuel ⊢
      obtain ⟨s', hresult, hrest, herror'⟩ := h fuel (i :: seen) r.state rest scalarValue' hstate' hfuel
      exact ⟨s', hresult, hrest, (herror'.trans herror).trans herror₁⟩

/-! ## Nested messages -/

/-- The states that are left on the stack for the value of a nested message. -/
def nestedStack (json : JsonValue) (obj : JsonObject) (n : Nat) : List JsonState :=
  match json with
  | .object o => [{ obj := o }, ⟨obj, n, some .null⟩]
  | json => [⟨obj, n, some json⟩]

/-- A value that is no object stays on top of the stack. -/
theorem nestedStack_of_isSimple {json : JsonValue} (h : isSimple json = true) :
    nestedStack json obj n = [⟨obj, n, some json⟩] := by
  cases json <;> first | rfl | cases h

/-- A nested message is read, if there is fuel enough. -/
theorem ReadsMessage.nested {u : Nat} {json : JsonValue} (h : ReadsMessage env custom S u m json)
    (obj : JsonObject) (n : Nat) :
    ∃ sub, m.Same S (.named u) sub ∧ ∀ fuel s rest, s.state = nestedStack json obj n ++ rest →
      ∃ r, deserializeMessageField (format env custom S) S fuel (.named u) s
          (S.defaultMessage (.named u)) = r ∧
        (r.2.2 = .outOfFuel ∨ r.2 = (sub, .returned true) ∧ r.1.lastError = s.lastError ∧
          ∃ scalarValue, r.1.state = ⟨obj, n, scalarValue⟩ :: rest) := by
  cases h with
  | object h =>
    rename_i o
    obtain ⟨sub, hends, hsame⟩ := h _ (Binary.blank_defaultMessage S (.named u))
    refine ⟨sub, hsame, fun fuel s rest hstate => ⟨_, rfl, ?_⟩⟩
    have hintercept : (format env custom S).interceptMessageField (.named u) s
        (S.defaultMessage (.named u)) = none := by
      simp [format, interceptMessageField, Deserializer.scalarValue?, hstate, nestedStack]
    simp only [deserializeMessageField, hintercept]
    by_cases hfuel : (deserializeMessage (format env custom S) S fuel (.named u) s
        (S.defaultMessage (.named u))).2.2 = .outOfFuel
    · exact .inl hfuel
    · obtain ⟨s', hresult, hrest, herror⟩ :=
        hends fuel [] s (⟨obj, n, some .null⟩ :: rest) none hstate hfuel
      have hmessage : deserializeMessage (format env custom S) S fuel (.named u) s
          (S.defaultMessage (.named u)) = (s', sub, .returned true) := hresult
      rw [hmessage]
      exact .inr ⟨rfl, herror, _, hrest⟩
  | custom hsimple hfind h hsame =>
    rename_i deserializer sub
    refine ⟨sub, hsame, fun fuel s rest hstate => ⟨_, rfl, ?_⟩⟩
    rw [nestedStack_of_isSimple hsimple] at hstate
    have hintercept : (format env custom S).interceptMessageField (.named u) s
        (S.defaultMessage (.named u)) =
          some (s.met (.message (.named u) (S.defaultMessage (.named u)) json), sub, true) := by
      simp [format, interceptMessageField, Deserializer.scalarValue?, hstate,
        findCustomJsonDeserializer, hfind, h]
    simp only [deserializeMessageField, hintercept]
    exact .inr ⟨trivial, rfl, _, hstate⟩

/-! ## What is found for a field -/

/-- The flag for maps tells what the type is. -/
theorem fieldFlags_isMap (f : FieldInfo) : f.fieldFlags.isMap = f.type.isMap := by
  unfold FieldInfo.fieldFlags
  split <;> rfl

/-- A singular message has the flag for messages. -/
theorem fieldFlags_isMessage_of_isPureMessage (h : f.type.isPureMessage = true) :
    f.fieldFlags.isMessage = true := by
  have hmessage : f.type.isMessage = true := by
    cases htype : f.type <;> simp_all [PropertyType.isPureMessage, PropertyType.isMessage]
  unfold FieldInfo.fieldFlags
  split
  · exact h
  · exact hmessage

/-- What is no message has not. -/
theorem fieldFlags_isMessage_of_not_isMessage (h : f.type.isMessage = false) :
    f.fieldFlags.isMessage = false := by
  have hpure : f.type.isPureMessage = false := by
    cases htype : f.type <;> simp_all [PropertyType.isPureMessage, PropertyType.isMessage]
  unfold FieldInfo.fieldFlags
  split
  · exact hpure
  · exact h

/-- A list of messages has it. -/
theorem fieldFlags_isMessage_of_messageList {u : Nat} (hfits : f.presenceFits = true)
    (htype : f.type = .messageList u) : f.fieldFlags.isMessage = true := by
  have himplicit := Binary.implicit_of_isRepeated hfits (by rw [htype]; rfl)
  simp [FieldInfo.fieldFlags, himplicit, FieldInfo.collectFieldFlags, htype, PropertyType.isMessage]

/-- The fields from one on begin with it. -/
theorem drop_of_getElem? {α : Type} {l : List α} {a : α} (h : l[n]? = some a) :
    l.drop n = a :: l.drop (n + 1) := by
  obtain ⟨hn, rfl⟩ := List.getElem?_eq_some_iff.mp h
  exact List.drop_eq_getElem_cons hn

section

variable {json : JsonValue} (fields : List FieldInfo)

/-- A field without a key is passed by. -/
theorem findField_none (scalarValue : Option JsonValue)
    (hkey : findKey env obj f.jsonName = none) :
    findField env (f :: fields) ⟨obj, n, scalarValue⟩ =
      findField env fields ⟨obj, n + 1, scalarValue⟩ := by
  simp only [findField, hkey, JsonState.next]

/-- The value of a field that is no message is found as it is. -/
theorem findField_plain (scalarValue : Option JsonValue)
    (hkey : findKey env obj f.jsonName = some f.jsonName)
    (hvalue : obj.value f.jsonName = json) (hnull : json.isNull = false)
    (hf : f.type.isMessage = false) :
    findField env (f :: fields) ⟨obj, n, scalarValue⟩ =
      .scalar ⟨obj, n + 1, some json⟩ n f json := by
  have hmessage := fieldFlags_isMessage_of_not_isMessage hf
  have hmap : f.fieldFlags.isMap = false := by
    rw [fieldFlags_isMap]
    cases htype : f.type <;> simp_all [PropertyType.isMap, PropertyType.isMessage]
  simp only [findField, hkey, hvalue, hmessage, hmap, JsonState.next]
  cases json <;> first | rfl | cases hnull

/-- A nested message is found in its object, or in another value. -/
theorem findField_message (hkey : findKey env obj f.jsonName = some f.jsonName)
    (hvalue : obj.value f.jsonName = json) (hjson : isSimple json = true ∨ ∃ o, json = .object o)
    (hf : f.type.isPureMessage = true) :
    (findField env (f :: fields) ⟨obj, n, some .null⟩).Leaves (nestedStack json obj (n + 1)) n := by
  have hmessage := fieldFlags_isMessage_of_isPureMessage hf
  have hmap : f.fieldFlags.isMap = false := by
    rw [fieldFlags_isMap]
    cases htype : f.type <;> simp_all [PropertyType.isMap, PropertyType.isPureMessage]
  have hrepeated : f.fieldFlags.repeated = false := by
    rw [FieldInfo.fieldFlags_repeated]
    cases htype : f.type <;> simp_all [PropertyType.isRepeated, PropertyType.isPureMessage]
  simp only [findField, hkey, hvalue, hmessage, hmap, hrepeated, JsonState.next]
  cases json with
  | null => simp [isSimple] at hjson
  | array => simp [isSimple] at hjson
  | _ => exact ⟨rfl, rfl⟩

/-- The first item of a list of messages is found. -/
theorem findField_item {item : JsonValue} {items : List JsonValue}
    (hkey : findKey env obj f.jsonName = some f.jsonName)
    (hvalue : obj.value f.jsonName = .array (item :: items))
    (hjson : isSimple item = true ∨ ∃ o, item = .object o) (hmessage : f.fieldFlags.isMessage = true)
    (hrepeated : f.fieldFlags.repeated = true) :
    (findField env (f :: fields) ⟨obj, n, some .null⟩).Leaves
      (nestedStack item (obj.insert f.jsonName (.array items)) n) n := by
  have hnull : item.isNull = false := by
    cases item <;> first | rfl | simp [isSimple] at hjson
  simp only [findField, hkey, hvalue, hmessage, hrepeated, Bool.and_self, if_true, hnull]
  cases item with
  | null => cases hnull
  | array => simp [isSimple] at hjson
  | _ => exact ⟨rfl, rfl⟩

/-- A list without items is passed by. -/
theorem findField_noItem (hkey : findKey env obj f.jsonName = some f.jsonName)
    (hvalue : obj.value f.jsonName = .array []) (hmessage : f.fieldFlags.isMessage = true)
    (hrepeated : f.fieldFlags.repeated = true) :
    findField env (f :: fields) ⟨obj, n, some .null⟩ =
      findField env fields ⟨obj, n + 1, some .null⟩ := by
  simp only [findField, hkey, hvalue, hmessage, hrepeated, Bool.and_self, if_true, JsonState.next]

/-- The first entry of a map is found. -/
theorem findField_entry {member : String × JsonValue} {members : JsonObject}
    (hkey : findKey env obj f.jsonName = some f.jsonName)
    (hvalue : obj.value f.jsonName = .object (member :: members))
    (hrepeated : f.fieldFlags.repeated = false) (hmap : f.fieldFlags.isMap = true) :
    (findField env (f :: fields) ⟨obj, n, some .null⟩).Leaves
      [{ obj := [("key", .string member.1), ("value", member.2)] },
        ⟨obj.insert f.jsonName (.object members), n, some .null⟩] n := by
  simp only [findField, hkey, hvalue, hrepeated, Bool.and_false, Bool.false_eq_true, if_false, hmap,
    if_true]
  exact ⟨rfl, rfl⟩

/-- A map without entries is passed by. -/
theorem findField_noEntry (hkey : findKey env obj f.jsonName = some f.jsonName)
    (hvalue : obj.value f.jsonName = .object []) (hrepeated : f.fieldFlags.repeated = false)
    (hmap : f.fieldFlags.isMap = true) :
    findField env (f :: fields) ⟨obj, n, some .null⟩ =
      findField env fields ⟨obj, n + 1, some .null⟩ := by
  simp only [findField, hkey, hvalue, hrepeated, Bool.and_false, Bool.false_eq_true, if_false, hmap,
    if_true, JsonState.next]

end

end

end QtGrpc.Protobuf.Json
