import QtGrpc.Library.Transition
import QtGrpc.Protobuf.Binary.OneofMembers
import QtGrpc.Protobuf.Binary.WireTypes

/-!
# What a oneof holds

A oneof records a value and the number of the member it was stored for. Setters, copies and the
decoder write both at once. A message member that is read through the meta object is created in
place, though, and then the oneof holds a message under the number of whatever member it was set to
before. The decoder reads its message members this way, too. And a setter keeps the value of its
member that it finds equal to the new one, such as a zero of the other sign.
-/

namespace QtGrpc.Protobuf.Binary

/-- What was stored last in each oneof of a message, and for which of its members. -/
abbrev Choices := Nat → Option (Nat × Value)

section

variable (S : Schema) (equal : Nat → Message → Message → Option Message) (t : MessageType)

/-- What a setter leaves of the value a oneof holds and a value it is given for the same member.
`equal` tells what becomes of a message that was found equal to another one. -/
def keptValue : Value → Value → Value
  | .message t' old, .message t'' new =>
    if t' = t'' then ((equal t' old new).map (Value.message t')).getD (.message t'' new)
    else .message t'' new
  | old, new => if S.isEqual old new then old else new

/-- `set$property_name_cap$` of a member of a oneof. -/
def setterOneof (m : Message) (f : FieldInfo) (j : Nat) (v : Value) : Message :=
  let (n, old) := m.oneofState j
  m.setMember (.oneof j)
    (.oneof f.fieldNumber (if n = f.fieldNumber then keptValue S equal old v else v))

/-- `clear$optional_property_name_cap$` of a oneof. -/
def clearOneof (m : Message) (j : Nat) : Message :=
  if (m.oneofState j).1 = 0 then m else m.setMember (.oneof j) (.oneof 0 .null)

/-- A value of the type of a member, as the parameter of its setter. -/
def isOfType : PropertyType → Value → Bool
  | .scalar k, .scalar v => v.1 == k
  | .enum e, .enumerator e' _ => e == e'
  | .message t, .message t' _ => t == t'
  | .custom h _, .custom h' _ => h == h'
  | _, _ => false

/-- A value is to be stored for a member. -/
def Choices.store (chosen : Choices) (f : FieldInfo) (v : Value) : Choices :=
  match f.presence with
  | .oneof j => Function.update chosen j (some (f.fieldNumber, v))
  | _ => chosen

/-- The message that is stored for a member changes. -/
def Choices.through (chosen : Choices) (f : FieldInfo) (v : Value) : Choices :=
  match f.presence with
  | .oneof j =>
    if f.type.isPureMessage && (chosen j).any fun c => c.1 == f.fieldNumber then
      Function.update chosen j (some (f.fieldNumber, v))
    else chosen
  | _ => chosen

/-- The property in the cache of a decoder is stored. -/
def Choices.storeCached (chosen : Choices) (cache : Cache) : Choices :=
  match cache.index.bind fun i => (S.propertyOrdering t).fields[i]? with
  | none => chosen
  | some f => chosen.store f (storedValue S f cache.propertyValue)

/-- What the loop of a decoder stores from one of its calls on. -/
def choicesBehind {σ : Type} (b : Format σ) : Nat → LoopCall σ → Choices → Choices
  | 0, _, chosen => chosen
  | fuel + 1, c, chosen =>
    match c.iteration b S with
    | none => chosen.storeCached S c.type c.cache
    | some x =>
      let selected :=
        if c.cache.index = some x.index then chosen else chosen.storeCached S c.type c.cache
      let behind := selected.through x.field (x.result b S).cache.propertyValue
      match c.next b S with
      | none => behind
      | some c' => choicesBehind b fuel c' behind

/-- The first call of the loop for an input. -/
def startCall (s : Serializer) (fuel : Nat) (data : Bytes) : LoopCall Deserializer :=
  { fuel
    type := t
    state := Serializer.started s.deserializer data
    message := S.defaultMessage t }

/-- An operation on one of several objects of a class. -/
inductive OneofCall where
  | set (a i : Nat) (v : Value)
  | clear (a j : Nat)
  | copy (a b : Nat)
  | readProperty (a i : Nat)
  | deserialize (a : Nat) (s : Serializer) (fuel : Nat) (data : Bytes)

/-- What an operation makes of the objects. -/
def OneofCall.step (env : Environment) (objects : Nat → Message) :
    OneofCall → Option (Nat → Message)
  | .set a i v =>
    match (S.propertyOrdering t).fields[i]? with
    | none => none
    | some f =>
      match f.presence with
      | .oneof j =>
        if isOfType f.type v then
          some (Function.update objects a (setterOneof S equal (objects a) f j v))
        else none
      | _ => none
  | .clear a j => some (Function.update objects a (clearOneof (objects a) j))
  | .copy a b => some (Function.update objects a (objects b))
  | .readProperty a i =>
    ((S.propertyOrdering t).fields[i]?).map fun f =>
      Function.update objects a (S.initializedProperty (objects a) i f).1
  | .deserialize a s fuel data =>
    match s.deserialize env S fuel t data with
    | (_, m, .returned _) => some (Function.update objects a m)
    | (_, _, .outOfFuel) => none

/-- What an operation stores in the oneofs of the objects. -/
def OneofCall.record (env : Environment) (chosen : Nat → Choices) (_ : Nat → Message) :
    OneofCall → (Nat → Message) → Nat → Choices
  | .set a i v, _ =>
    match (S.propertyOrdering t).fields[i]? with
    | none => chosen
    | some f => Function.update chosen a ((chosen a).store f v)
  | .clear a j, _ => Function.update chosen a (Function.update (chosen a) j none)
  | .copy a b, _ => Function.update chosen a (chosen b)
  | .readProperty _ _, _ => chosen
  | .deserialize a s fuel data, _ =>
    Function.update chosen a
      (if data.length > s.effectiveMaximumInputSize then fun _ => none
        else choicesBehind S (format env S) fuel (startCall S t s fuel data) fun _ => none)

/-- A value of the type of the member of the oneof with this number. -/
def IsChoice (j n : Nat) (v : Value) : Prop :=
  ∃ (i : Nat) (f : FieldInfo), (S.propertyOrdering t).fields[i]? = some f ∧ f.presence = .oneof j ∧
    f.fieldNumber = n ∧ isOfType f.type v = true

/-- Every oneof holds a value of the type of the member whose number it records, and the one that
was stored for it last. -/
structure OneofsConsistent (m : Message) (chosen : Choices) : Prop where
  typed : ∀ j, (m.oneofState j).1 ≠ 0 → IsChoice S t j (m.oneofState j).1 (m.oneofState j).2
  unset : ∀ j n, (m.oneofState j).1 = 0 → holdsField (m.oneofState j) n = false
  last : ∀ j n, holdsField (m.oneofState j) n = true → chosen j = some (n, (m.oneofState j).2)
  kept : ∀ j n v, chosen j = some (n, v) → m.oneofState j = (n, v)

/-- A field that fails within a sub-message found its oneof unset, or set to this sub-message. -/
def FailsInPlace (env : Environment) (c : LoopCall Deserializer) : Prop :=
  ∀ (e : LoopCall Deserializer) (x : Iteration Deserializer) (j t' : Nat),
    LoopCall.Iterates (format env S) S c e → e.iteration (format env S) S = some x →
    (x.result (format env S) S).stop = some (.returned false) →
    x.field.presence = .oneof j → x.field.type = .message t' →
      (x.message.oneofState j).1 = 0 ∨ (x.message.oneofState j).1 = x.field.fieldNumber

/-- A new value that is equal to the old one is the same one. -/
structure ToldApart (old new : Value) : Prop where
  value : S.isEqual old new = true → old = new
  message : ∀ t' sub sub' kept, old = .message t' sub → new = .message t' sub' →
    equal t' sub sub' = some kept → kept = sub'

/-- Where the loop stores its cached property in a oneof that is set to this member, the property is
told apart from the value it takes the place of. -/
def StoresApart (env : Environment) (c : LoopCall Deserializer) : Prop :=
  ∀ (e : LoopCall Deserializer) (i j : Nat) (f : FieldInfo),
    LoopCall.Iterates (format env S) S c e → e.cache.index = some i →
    (∀ x, e.iteration (format env S) S = some x → x.index ≠ i) →
    (S.propertyOrdering e.type).fields[i]? = some f → f.presence = .oneof j →
    (e.message.oneofState j).1 = f.fieldNumber →
      S.isEqual (e.message.oneofState j).2 (storedValue S f e.cache.propertyValue) = true →
        (e.message.oneofState j).2 = storedValue S f e.cache.propertyValue

/-- A message member is read where the oneof is unset or holds a message of its type; a decoding that
fails within a message member found the oneof unset or set to this member; and no value is stored in
a oneof that holds another value of this member that compares equal. -/
def OneofCall.KeepsMember (env : Environment) (objects : Nat → Message) : OneofCall → Prop
  | .set a i v => ∀ (f : FieldInfo) (j : Nat), (S.propertyOrdering t).fields[i]? = some f →
      f.presence = .oneof j → ((objects a).oneofState j).1 = f.fieldNumber →
        ToldApart S equal ((objects a).oneofState j).2 v
  | .readProperty a i => ∀ (f : FieldInfo) (j t' : Nat),
      (S.propertyOrdering t).fields[i]? = some f → f.presence = .oneof j → f.type = .message t' →
        ((objects a).oneofState j).1 = 0 ∨ ∃ sub, ((objects a).oneofState j).2 = .message t' sub
  | .deserialize _ s fuel data => data.length ≤ s.effectiveMaximumInputSize →
      FailsInPlace S env (startCall S t s fuel data) ∧ StoresApart S env (startCall S t s fuel data)
  | _ => True

end

section

variable {S : Schema} {equal : Nat → Message → Message → Option Message} {t : MessageType}
  {m : Message} {chosen : Choices} {i j : Nat} {f : FieldInfo} {v : Value}

theorem suits_of_isOfType (h : isOfType f.type v = true) : v.Suits f.type := by
  unfold isOfType at h
  split at h
  · rename_i k w htype
    rw [htype]
    exact ⟨_, rfl⟩
  · rename_i e e' w htype
    rw [htype]
    exact .inl ⟨_, _, rfl⟩
  · rename_i t' t'' sub htype
    rw [htype]
    rw [← beq_iff_eq.mp h]
    exact ⟨_, rfl⟩
  · rename_i k isList k' content htype
    rw [htype]
    exact ⟨_, _, rfl⟩
  · cases h

theorem eq_custom_of_isOfType {h : Nat} {isList : Bool} (hv : isOfType (.custom h isList) v = true) :
    ∃ content, v = .custom h content := by
  cases v with
  | custom h' content =>
    obtain rfl := beq_iff_eq.mp hv
    exact ⟨content, rfl⟩
  | _ => cases hv

/-- A value that is told apart from the old one is stored. -/
theorem ToldApart.keptValue {old : Value} (h : ToldApart S equal old v) :
    keptValue S equal old v = v := by
  unfold Binary.keptValue
  split
  · rename_i t' sub t'' sub'
    split
    · rename_i htype
      subst htype
      cases hequal : equal t' sub sub' with
      | none => rfl
      | some kept => rw [h.message t' sub sub' kept rfl rfl hequal]; rfl
    · rfl
  · split
    · rename_i hequal
      exact h.value hequal
    · rfl

/-- A value of the type of a member is stored as it is. -/
theorem storedValue_of_isOfType (h : isOfType f.type v = true) : storedValue S f v = v := by
  unfold storedValue
  unfold isOfType at h
  split at h <;> simp_all [Schema.convert]

/-- What a getter makes up for a member of a oneof is of its type, but for a message. -/
theorem initialValue_isOfType (hfits : f.presenceFits = true) (hpresence : f.presence = .oneof j)
    (hmessage : ∀ t', f.type ≠ .message t') : isOfType f.type (f.type.initialValue S) = true := by
  unfold FieldInfo.presenceFits at hfits
  cases htype : f.type <;> simp_all [PropertyType.initialValue, isOfType]

variable (S t) in
/-- A oneof holds what was stored for it; where the property of a message member of another number
is in the cache, it has taken the place of the value. -/
structure TracksAt (cache : Cache) (m : Message) (chosen : Choices) (j : Nat) : Prop where
  typed : ∀ n v, chosen j = some (n, v) → IsChoice S t j n v
  number : (m.oneofState j).1 = ((chosen j).map Prod.fst).getD 0
  value : ∀ n v, chosen j = some (n, v) →
    (∀ i f, cache.index = some i → (S.propertyOrdering t).fields[i]? = some f →
      f.presence = .oneof j → f.type.isPureMessage = true → f.fieldNumber = n) →
    (m.oneofState j).2 = v

theorem IsChoice.number_pos {n : Nat} (h : IsChoice S t j n v) : 0 < n := by
  obtain ⟨i, f, hf, -, rfl, -⟩ := h
  exact ((S.propertyOrdering t).numbers_bound f (List.mem_of_getElem? hf)).1

theorem TracksAt.of_state {cache : Cache} {m' : Message} (h : TracksAt S t cache m chosen j)
    (hstate : m'.oneofState j = m.oneofState j) : TracksAt S t cache m' chosen j :=
  ⟨h.typed, by rw [hstate]; exact h.number, by rw [hstate]; exact h.value⟩

theorem tracksAt_unset (S : Schema) (t : MessageType) (j : Nat) (cache : Cache) :
    TracksAt S t cache (S.defaultMessage t) (fun _ => none) j :=
  ⟨by simp, rfl, by simp⟩

/-- A message whose oneofs hold what was stored is consistent. -/
theorem oneofsConsistent_of_tracks (h : ∀ j, TracksAt S t {} m chosen j) :
    OneofsConsistent S t m chosen := by
  have hkept (j n : Nat) (v : Value) (hchosen : chosen j = some (n, v)) :
      m.oneofState j = (n, v) := by
    have hnumber := (h j).number
    rw [hchosen] at hnumber
    exact Prod.ext hnumber ((h j).value n v hchosen fun i f hi => by cases hi)
  refine ⟨fun j hne => ?_, fun j n hzero => ?_, fun j n hholds => ?_, hkept⟩
  · cases hchosen : chosen j with
    | none =>
      have hnumber := (h j).number
      rw [hchosen] at hnumber
      exact absurd hnumber hne
    | some c =>
      obtain ⟨n, v⟩ := c
      rw [hkept j n v hchosen]
      exact (h j).typed n v hchosen
  · cases n <;> simp [holdsField, hzero]
  · cases hchosen : chosen j with
    | none =>
      have hnumber := (h j).number
      rw [hchosen] at hnumber
      simp only [Option.map_none, Option.getD_none] at hnumber
      cases n <;> simp [holdsField, hnumber] at hholds
    | some c =>
      obtain ⟨n', v⟩ := c
      have hstate := hkept j n' v hchosen
      rw [hstate] at hholds ⊢
      simp only [holdsField, Bool.and_eq_true, beq_iff_eq] at hholds
      rw [hholds.1.1]

/-! ## Setters and reads -/

/-- Other oneofs are left alone. -/
theorem store_of_ne (hpresence : f.presence ≠ .oneof j) : chosen.store f v j = chosen j := by
  unfold Choices.store
  cases hp : f.presence with
  | oneof k =>
    simp only
    rw [Function.update_of_ne]
    rintro rfl
    exact hpresence hp
  | _ => rfl

/-- A oneof that holds the value of a setter holds what was stored. -/
theorem TracksAt.set (hf : (S.propertyOrdering t).fields[i]? = some f)
    (hpresence : f.presence = .oneof j) (hv : isOfType f.type v = true) {m' : Message}
    (hm' : m'.oneofState j = (f.fieldNumber, v)) :
    TracksAt S t {} m' (chosen.store f v) j := by
  have hstored : chosen.store f v j = some (f.fieldNumber, v) := by
    simp [Choices.store, hpresence]
  refine ⟨fun n w hnw => ?_, by rw [hstored, hm']; rfl, fun n w hnw _ => ?_⟩
  · rw [hstored] at hnw
    cases hnw
    exact ⟨i, f, hf, hpresence, rfl, hv⟩
  · rw [hstored] at hnw
    cases hnw
    rw [hm']

variable (S t) in
/-- The property in the cache is stored as a value of the type of its member. -/
def CachedOfType (cache : Cache) : Prop :=
  ∀ i f j, cache.index = some i → (S.propertyOrdering t).fields[i]? = some f →
    f.presence = .oneof j → isOfType f.type (storedValue S f cache.propertyValue) = true

variable (S t) in
/-- The cached property is told apart from the value of its member in the oneof. -/
def CachedApart (cache : Cache) (m : Message) : Prop :=
  ∀ i f j, cache.index = some i → (S.propertyOrdering t).fields[i]? = some f →
    f.presence = .oneof j → (m.oneofState j).1 = f.fieldNumber →
      S.isEqual (m.oneofState j).2 (storedValue S f cache.propertyValue) = true →
        (m.oneofState j).2 = storedValue S f cache.propertyValue

/-- The property in the cache of a decoder is stored for its member. -/
theorem TracksAt.store {cache c : Cache} {M : Message} (h : TracksAt S t cache m chosen j)
    (hpending : Pending S t cache m) (hcached : CachedOfType S t cache)
    (hapart : CachedApart S t cache m) (hstore : storeCachedValue S t cache m = (c, M, true)) :
    TracksAt S t {} M (chosen.storeCached S t cache) j := by
  cases hpending with
  | stored hindex hformed =>
    simp only [storeCachedValue, hindex, Prod.mk.injEq] at hstore
    obtain ⟨-, rfl, -⟩ := hstore
    have hsame : chosen.storeCached S t cache = chosen := by
      simp [Choices.storeCached, hindex]
    rw [hsame]
    exact ⟨h.typed, h.number, fun n v hnv _ => h.value n v hnv fun i f hi => by simp [hindex] at hi⟩
  | cached hindex hf hv hothers =>
    rename_i i f
    have hM : M = (S.setMessageProperty m i f cache.propertyValue).1 := by
      simp only [storeCachedValue, hindex, hv.suits.isNull, hf, Bool.false_eq_true, if_false,
        Prod.mk.injEq] at hstore
      exact hstore.2.1.symm
    have hchosen : chosen.storeCached S t cache =
        chosen.store f (storedValue S f cache.propertyValue) := by
      simp [Choices.storeCached, hindex, hf]
    rw [hchosen]
    by_cases hpresence : f.presence = .oneof j
    · refine TracksAt.set hf hpresence (hcached i f j hindex hf hpresence) ?_
      obtain ⟨w, hconvert, -⟩ := convert_isProperty hv
      have hstored : storedValue S f cache.propertyValue = w := by simp [storedValue, hconvert]
      have hkept := hapart i f j hindex hf hpresence
      rw [hstored] at hkept
      rw [hM, hstored]
      unfold Schema.setMessageProperty
      simp only [hconvert, hpresence]
      by_cases hskip : (m.oneofState j).1 = f.fieldNumber ∧ S.isEqual (m.oneofState j).2 w = true
      · rw [if_pos hskip]
        exact Prod.ext hskip.1 (hkept hskip.1 hskip.2)
      · rw [if_neg hskip]
        simp [Message.oneofState]
    · have hstate : M.oneofState j = m.oneofState j := by
        rw [hM]
        exact oneofState_of_sameElsewhere (sameElsewhere_setMessageProperty _ _ _ _) hpresence
      refine ⟨?_, ?_, fun n v hnv _ => ?_⟩
      · rw [store_of_ne hpresence]
        exact h.typed
      · rw [store_of_ne hpresence, hstate]
        exact h.number
      · rw [store_of_ne hpresence] at hnv
        rw [hstate]
        refine h.value n v hnv fun k g hk hg hmember _ => ?_
        rw [hindex] at hk
        cases hk
        rw [hf] at hg
        cases hg
        exact absurd hmember hpresence

/-- A property that is read takes the place of the value of another member at most. -/
theorem TracksAt.read {cache : Cache} (h : TracksAt S t {} m chosen j)
    (hf : (S.propertyOrdering t).fields[i]? = some f) (hcache : cache.index = some i) :
    TracksAt S t cache (S.initializedProperty m i f).1 chosen j := by
  by_cases hmember : f.presence = .oneof j ∧ ∃ t', f.type = .message t'
  · obtain ⟨hpresence, t', htype⟩ := hmember
    have hstate : (S.initializedProperty m i f).1.oneofState j =
        ((m.oneofState j).1, .message t' (S.ensureMessage t' (m.oneofState j).2)) := by
      unfold Schema.initializedProperty
      simp [hpresence, htype, Message.oneofState]
    rw [show (m.oneofState j).1 = ((chosen j).map Prod.fst).getD 0 from h.number] at hstate
    refine ⟨h.typed, by rw [hstate], fun n v hnv hsame => ?_⟩
    have hn := hsame i f hcache hf hpresence (by rw [htype]; rfl)
    obtain ⟨k, g, hg, -, hgn, htyped⟩ := h.typed n v hnv
    obtain rfl := fieldNumber_injective hf hg (hn.trans hgn.symm)
    have hsuits := suits_of_isOfType htyped
    rw [htype] at hsuits
    obtain ⟨sub, rfl⟩ := hsuits
    rw [hstate, h.value n _ hnv fun i f hi => by cases hi]
    simp [Schema.ensureMessage]
  · have hstate : (S.initializedProperty m i f).1.oneofState j = m.oneofState j := by
      by_cases hpresence : f.presence = .oneof j
      · rw [initializedProperty_of_not_isPureMessage]
        cases htype : f.type with
        | message t' => exact absurd ⟨hpresence, t', htype⟩ hmember
        | _ => rfl
      · exact oneofState_of_sameElsewhere (sameElsewhere_initializedProperty m i f) hpresence
    exact ⟨h.typed, by rw [hstate]; exact h.number, fun n v hnv _ => by
      rw [hstate]
      exact h.value n v hnv fun i f hi => by cases hi⟩

/-- The property that is read for a member is of its type. -/
theorem TracksAt.readOfType (h : TracksAt S t {} m chosen j)
    (hf : (S.propertyOrdering t).fields[i]? = some f) (hpresence : f.presence = .oneof j) :
    isOfType f.type (S.initializedProperty m i f).2 = true := by
  have hread : (∃ t', f.type = .message t') ∨ ∀ t', f.type ≠ .message t' := by
    cases f.type <;> simp
  rcases hread with ⟨t', htype⟩ | hmessage
  · simp [Schema.initializedProperty, hpresence, htype, isOfType]
  · have hvalue : (S.initializedProperty m i f).2 =
        if holdsField (m.oneofState j) f.fieldNumber then (m.oneofState j).2
        else f.type.initialValue S := by
      unfold Schema.initializedProperty
      cases htype : f.type with
      | message t' => exact absurd htype (hmessage t')
      | _ => simp only [hpresence]; split <;> rfl
    rw [hvalue]
    split
    · rename_i hholds
      have hnumber := h.number
      simp only [holdsField, Bool.and_eq_true, beq_iff_eq, bne_iff_ne] at hholds
      cases hchosen : chosen j with
      | none =>
        rw [hchosen, hholds.1.1] at hnumber
        exact absurd hnumber hholds.1.2
      | some c =>
        obtain ⟨n, v⟩ := c
        rw [h.value n v hchosen fun i f hi => by cases hi]
        rw [hchosen, hholds.1.1] at hnumber
        obtain ⟨k, g, hg, -, hgn, htyped⟩ := h.typed n v hchosen
        obtain rfl := fieldNumber_injective hf hg (hnumber.trans hgn.symm)
        exact htyped
    · exact initialValue_isOfType ((S.propertyOrdering t).presence_fits f (List.mem_of_getElem? hf))
        hpresence hmessage

/-- A sub-message that is changed in place is the value of its member, or has taken the place of the
value of another one. -/
theorem TracksAt.place {cache cache' : Cache} (h : TracksAt S t cache m chosen j)
    (hf : (S.propertyOrdering t).fields[i]? = some f) (hindex : cache.index = some i)
    (hindex' : cache'.index = some i) (hv : f.type.isPureMessage = true → isOfType f.type v = true) :
    TracksAt S t cache' (placeProperty m i f v) (chosen.through f v) j := by
  have hother (hsame : chosen.through f v j = chosen j)
      (hstate : (placeProperty m i f v).oneofState j = m.oneofState j) :
      TracksAt S t cache' (placeProperty m i f v) (chosen.through f v) j := by
    refine ⟨by rw [hsame]; exact h.typed, by rw [hsame, hstate]; exact h.number,
      fun n w hnw hcached => ?_⟩
    rw [hsame] at hnw
    rw [hstate]
    refine h.value n w hnw fun k g hk hg => hcached k g ?_ hg
    rw [hindex']
    rwa [hindex] at hk
  by_cases hpresence : f.presence = .oneof j
  · cases hpure : f.type.isPureMessage with
    | false =>
      refine hother ?_ (by rw [placeProperty_of_not_isPureMessage hpure])
      simp [Choices.through, hpresence, hpure]
    | true =>
      have hstate : (placeProperty m i f v).oneofState j = ((m.oneofState j).1, v) := by
        simp [placeProperty, hpure, Message.writeThrough, hpresence, Message.oneofState]
      have hnumber := h.number
      cases hany : (chosen j).any fun c => c.1 == f.fieldNumber with
      | true =>
        obtain ⟨c, hc, hcn⟩ := (Option.any_eq_true _ _).mp hany
        have hthrough : chosen.through f v j = some (f.fieldNumber, v) := by
          simp [Choices.through, hpresence, hpure, hany]
        rw [hc] at hnumber
        simp only [Option.map_some, Option.getD_some] at hnumber
        refine ⟨fun n w hnw => ?_, ?_, fun n w hnw _ => ?_⟩
        · rw [hthrough] at hnw
          cases hnw
          exact ⟨i, f, hf, hpresence, rfl, hv hpure⟩
        · rw [hthrough, hstate, hnumber, beq_iff_eq.mp hcn]
          rfl
        · rw [hthrough] at hnw
          cases hnw
          rw [hstate]
      | false =>
        have hthrough : chosen.through f v j = chosen j := by
          simp [Choices.through, hpresence, hany]
        refine ⟨by rw [hthrough]; exact h.typed, by rw [hthrough, hstate]; exact hnumber,
          fun n w hnw hcached => ?_⟩
        rw [hthrough] at hnw
        have hn := hcached i f hindex' hf hpresence hpure
        simp [hnw, hn] at hany
  · refine hother ?_ (oneofState_of_sameElsewhere (sameElsewhere_placeProperty m i f v) hpresence)
    unfold Choices.through
    cases hp : f.presence with
    | oneof k =>
      simp only
      split
      · rw [Function.update_of_ne]
        rintro rfl
        exact hpresence hp
      · rfl
    | _ => rfl

end

/-! ## A decoding -/

section

variable {env : Environment} {S : Schema} {t : MessageType}

/-- Behind a field only a sub-message was changed in the message, and its property is still in the
cache. -/
theorem result_placeProperty {x : Iteration Deserializer} (h : x.Formed S t) :
    (x.result (format env S) S).cache.index = some x.index ∧
      (x.result (format env S) S).message = placeProperty x.message x.index x.field
        (x.result (format env S) S).cache.propertyValue ∧
      (x.field.type.isPureMessage = true →
        isOfType x.field.type (x.result (format env S) S).cache.propertyValue = true) := by
  have hsuits := h.property.suits
  have hindex := h.index
  have hwith (nested : MessageType → Deserializer → Message → Deserializer × Message × Outcome) :
      let r := deserializeWithHandler (format env S) S nested x.field x.cache x.state x.message
      r.cache.index = some x.index ∧ r.message = x.message := by
    unfold deserializeWithHandler
    simp only
    split
    · exact ⟨hindex, rfl⟩
    · split
      · exact ⟨hindex, rfl⟩
      · split <;> exact ⟨hindex, rfl⟩
  unfold Iteration.result deserializeProperty
  split
  · rename_i t' t'' sub htype hv
    refine ⟨hindex, ?_, fun _ => ?_⟩
    · simp [placeProperty, htype, PropertyType.isPureMessage]
    · simp [htype, isOfType]
  · rename_i htype hv
    refine ⟨hindex, ?_, by simp [htype, PropertyType.isPureMessage]⟩
    simp [placeProperty, htype, PropertyType.isPureMessage]
  · rename_i htype hv
    simp only
    split
    · refine ⟨hindex, ?_, by simp [htype, PropertyType.isPureMessage]⟩
      simp [placeProperty, htype, PropertyType.isPureMessage]
    · refine ⟨hindex, ?_, by simp [htype, PropertyType.isPureMessage]⟩
      simp [placeProperty, htype, PropertyType.isPureMessage]
  · rename_i e htype
    split <;> refine ⟨hindex, ?_, by simp [htype, PropertyType.isPureMessage]⟩ <;>
      simp [placeProperty, htype, PropertyType.isPureMessage]
  · rename_i e htype
    split <;> refine ⟨hindex, ?_, by simp [htype, PropertyType.isPureMessage]⟩ <;>
      simp [placeProperty, htype, PropertyType.isPureMessage]
  · rename_i henum henumList hmessage hlist hhash
    have hpure : x.field.type.isPureMessage = false := by
      cases htype : x.field.type with
      | message k =>
        rw [htype] at hsuits
        obtain ⟨sub, hv⟩ := hsuits
        exact (hmessage k k sub htype hv).elim
      | _ => rfl
    obtain ⟨hcache, hmessage⟩ := hwith (deserializeMessageField (format env S) S x.fuel)
    refine ⟨hcache, ?_, by simp [hpure]⟩
    rw [placeProperty_of_not_isPureMessage hpure]
    exact hmessage

/-- Every field that is found is one of the type. -/
theorem exists_field_of_nextFieldIndex {fuel i : Nat} {d d' : Deserializer} {m m' : Message}
    (h : nextFieldIndex env S fuel t d m = (d', m', .field i)) :
    ∃ f, (S.propertyOrdering t).fields[i]? = some f := by
  have hfound := @nextFieldIndex_found env S fuel t d m
  rw [h] at hfound
  cases hfound with
  | unknown visits hvisits hlast hnext => exact absurd rfl (hnext i)
  | noField visits v i hvisits hindex hfield => exact exists_field_of_indexOfFieldNumber hindex
  | entered visits v i f hvisits hindex hfield hwire => exact ⟨f, hfield⟩

variable (S) in
/-- The oneofs of a message in a running decoder hold what was stored. -/
def TracksCall (c : LoopCall Deserializer) (chosen : Choices) : Prop :=
  ∀ j, TracksAt S c.type c.cache c.message chosen j

/-- Nothing but the members counts. -/
theorem CachedApart.of_oneofState {cache : Cache} {m m' : Message} (h : CachedApart S t cache m)
    (hstate : ∀ j, m'.oneofState j = m.oneofState j) : CachedApart S t cache m' := by
  intro i f j
  rw [hstate j]
  exact h i f j

/-- What the loop stores next is told apart. -/
theorem StoresApart.cachedApart {c : LoopCall Deserializer} (h : StoresApart S env c)
    (hnext : ∀ x, c.iteration (format env S) S = some x → c.cache.index ≠ some x.index) :
    CachedApart S c.type c.cache c.message := by
  intro i f j hindex hf hpresence
  refine h c i j f (.refl c) hindex (fun x hx heq => hnext x hx ?_) hf hpresence
  rw [hindex, heq]

/-- The message is finished where the loop finds no further field. -/
theorem TracksCall.finish {c : LoopCall Deserializer} {chosen : Choices} (h : TracksCall S c chosen)
    (hformed : c.Formed S) (hcached : CachedOfType S c.type c.cache)
    (hapart : CachedApart S c.type c.cache c.message)
    (hx : c.iteration (format env S) S = none) {ok : Bool}
    (hresult : (c.result (format env S) S).2.2 = .returned ok) (j : Nat) :
    TracksAt S c.type {} (c.result (format env S) S).2.1 (chosen.storeCached S c.type c.cache) j := by
  unfold LoopCall.iteration at hx
  unfold LoopCall.result at hresult ⊢
  cases hfuel : c.fuel with
  | zero =>
    rw [hfuel] at hresult
    cases hresult
  | succ fuel =>
    have hmember := @nextFieldIndex_member env S (fuel + 1) c.type c.state c.message
    simp only [hfuel, deserializeLoop_succ] at hresult hx ⊢
    cases hnext : (format env S).nextFieldIndex (fuel + 1) c.type c.state c.message with
    | mk s r =>
      obtain ⟨m, next⟩ := r
      have hstep : nextFieldIndex env S (fuel + 1) c.type c.state c.message = (s, m, next) := hnext
      rw [hstep] at hmember
      simp only [hnext] at hresult hx ⊢
      have hstate (j : Nat) : m.oneofState j = c.message.oneofState j := by
        simp only [Message.oneofState, show m.member = c.message.member from hmember]
      have hpending : Pending S c.type c.cache m := Pending.of_member_eq hformed hmember
      cases next with
      | outOfFuel => cases hresult
      | finished =>
        obtain ⟨c', M, hstore, -⟩ := storeCachedValue_spec hpending
        have hm : (finishMessage (format env S) S c.type c.seen c.cache s m).2.1 = M := by
          simp only [finishMessage, hstore]
        simp only [hm]
        exact ((h j).of_state (hstate j)).store hpending hcached (hapart.of_oneofState hstate) hstore
      | field i =>
        obtain ⟨f, hf⟩ := exists_field_of_nextFieldIndex hstep
        obtain ⟨c', m', hselect, -⟩ := selectProperty_spec hpending hf
        simp [hf, hselect] at hx

/-- A selected property leaves the oneofs tracked, and is of the type of its member. -/
theorem TracksCall.select {c : LoopCall Deserializer} {chosen : Choices} (h : TracksCall S c chosen)
    (hformed : c.Formed S) (hcached : CachedOfType S c.type c.cache) {x : Iteration Deserializer}
    (hapart : c.cache.index ≠ some x.index → CachedApart S c.type c.cache c.message)
    (hx : c.iteration (format env S) S = some x) :
    CachedOfType S c.type x.cache ∧ ∀ j, TracksAt S c.type x.cache x.message
      (if c.cache.index = some x.index then chosen else chosen.storeCached S c.type c.cache) j := by
  obtain ⟨-, m, hnext, hf, hselect⟩ := LoopCall.iteration_eq_some hx
  have hmember := @nextFieldIndex_member env S (x.fuel + 1) c.type c.state c.message
  rw [show nextFieldIndex env S (x.fuel + 1) c.type c.state c.message = _ from hnext] at hmember
  have hstate (j : Nat) : m.oneofState j = c.message.oneofState j := by
    simp only [Message.oneofState, show m.member = c.message.member from hmember]
  have hpending : Pending S c.type c.cache m := Pending.of_member_eq hformed hmember
  unfold selectProperty at hselect
  by_cases hi : c.cache.index = some x.index
  · rw [if_pos hi] at hselect ⊢
    simp only [Prod.mk.injEq] at hselect
    rw [← hselect.1, ← hselect.2.1]
    exact ⟨hcached, fun j => (h j).of_state (hstate j)⟩
  · rw [if_neg hi] at hselect ⊢
    obtain ⟨c', M, hstore, -⟩ := storeCachedValue_spec hpending
    rw [hstore] at hselect
    simp only [if_true, Prod.mk.injEq] at hselect
    rw [← hselect.1, ← hselect.2.1]
    have hstored (j : Nat) := ((h j).of_state (hstate j)).store hpending hcached
      ((hapart hi).of_oneofState hstate) hstore
    refine ⟨fun i f j hindex hfield hpresence => ?_, fun j => (hstored j).read hf rfl⟩
    cases hindex
    rw [hf] at hfield
    cases hfield
    have htyped := (hstored j).readOfType hf hpresence
    rwa [storedValue_of_isOfType htyped]

theorem deserializeEnum_of_enum {f : FieldInfo} {d : Deserializer} {v : Value} {e : Nat}
    (htype : f.type = .enum e) (hread : (deserializeEnum env f d v).2.2 = true) :
    ∃ x, (deserializeEnum env f d v).2.1 = .scalar ⟨.int64, x⟩ := by
  unfold deserializeEnum at hread ⊢
  rw [f.fieldFlags_repeated] at hread ⊢
  simp only [htype, PropertyType.isRepeated, Bool.false_eq_true, if_false] at hread ⊢
  generalize deserializeBasic env .int64 d.it = r at hread ⊢
  obtain ⟨it, _ | x⟩ := r
  · cases hread
  · exact ⟨x, rfl⟩

theorem deserializeScalarField_of_scalar {f : FieldInfo} {d : Deserializer} {v : Value}
    {k : ScalarKind} (htype : f.type = .scalar k) :
    (deserializeScalarField env S f d v).2.2 = true ∧
      ((deserializeScalarField env S f d v).2.1.isNull = false →
        ∃ x, (deserializeScalarField env S f d v).2.1 = .scalar ⟨k, x⟩) := by
  unfold deserializeScalarField
  simp only [f.fieldFlags_repeated, htype, PropertyType.isRepeated, Bool.and_false,
    integratedWireType, Bool.false_eq_true, if_false, integratedDeserializer]
  split
  · simp [Value.isNull]
  · generalize deserializeBasic env k d.it = r
    obtain ⟨it, _ | x⟩ := r
    · simp [Value.isNull]
    · simp

/-- What was decoded for a member of a oneof is stored as a value of its type. -/
theorem CachedOfType.result {x : Iteration Deserializer} (h : CachedOfType S t x.cache)
    (hformed : x.Formed S t) (hstop : (x.result (format env S) S).stop = none) :
    CachedOfType S t (x.result (format env S) S).cache := by
  intro i f j hindex hf hpresence
  rw [(@result_placeProperty env S t x hformed).1] at hindex
  cases hindex
  rw [hformed.field] at hf
  cases hf
  have hheld := h x.index x.field j hformed.index hformed.field hpresence
  have hfits := (S.propertyOrdering t).presence_fits x.field (List.mem_of_getElem? hformed.field)
  cases htype : x.field.type with
  | message t' =>
    have htyped := (@result_placeProperty env S t x hformed).2.2 (by rw [htype]; rfl)
    rw [← htype]
    rwa [storedValue_of_isOfType htyped]
  | enum e =>
    unfold Iteration.result deserializeProperty at hstop ⊢
    simp only [htype] at hstop ⊢
    have hread := @deserializeEnum_of_enum env x.field x.state x.cache.propertyValue e htype
    generalize hr : (format env S).deserializeEnum x.field x.state x.cache.propertyValue = r at hstop ⊢
    rw [show deserializeEnum env x.field x.state x.cache.propertyValue = r from hr] at hread
    obtain ⟨s, v, ok⟩ := r
    cases ok with
    | false => simp at hstop
    | true =>
      obtain ⟨w, rfl⟩ := hread rfl
      simp [storedValue, htype, Schema.convert, isOfType]
  | scalar k =>
    unfold Iteration.result deserializeProperty at hstop ⊢
    simp only [htype] at hstop ⊢
    unfold deserializeWithHandler at hstop ⊢
    obtain ⟨hdone, hread⟩ := @deserializeScalarField_of_scalar env S x.field x.state
      x.cache.propertyValue k htype
    generalize hr : (format env S).deserializeScalarField x.field x.state x.cache.propertyValue = r
      at hstop ⊢
    rw [show deserializeScalarField env S x.field x.state x.cache.propertyValue = r from hr]
      at hdone hread
    obtain ⟨s, v, ok⟩ := r
    obtain rfl : ok = true := hdone
    cases hnull : v.isNull with
    | true => simp [hnull] at hstop
    | false =>
      obtain ⟨w, rfl⟩ := hread hnull
      simp [storedValue, htype, Schema.convert, isOfType]
  | custom handler isList =>
    have hmessage : x.field.type.isMessage := by rw [htype]; rfl
    have hstored (v : Value) : storedValue S x.field v = v := by
      simp [storedValue, Schema.convert, htype]
    rw [hstored, htype] at hheld
    unfold Iteration.result deserializeProperty at hstop ⊢
    simp only [htype] at hstop ⊢
    unfold deserializeWithHandler at hstop ⊢
    rw [show (format env S).deserializeScalarField x.field x.state x.cache.propertyValue =
      (x.state, x.cache.propertyValue, false) from
        deserializeScalarField_of_isMessage hmessage x.state x.cache.propertyValue] at hstop ⊢
    rw [hstored]
    obtain ⟨content, hv⟩ := eq_custom_of_isOfType hheld
    simp only [hv, htype] at hstop ⊢
    cases hhandler : S.handlerOf (.custom handler isList) with
    | none => simp [hhandler] at hstop
    | some found =>
      simp only [hhandler] at hstop ⊢
      split
      · simp_all
      · rename_i hcontent
        cases hcontent
        simp [isOfType]
      · rename_i hcontent
        exact (hcontent _ _ rfl).elim
  | _ => simp [FieldInfo.presenceFits, hpresence, htype] at hfits

/-- The oneofs of a decoded message hold what the loop has stored. -/
theorem TracksCall.result {c : LoopCall Deserializer} {chosen : Choices} (h : TracksCall S c chosen)
    (hformed : c.Formed S) (hcached : CachedOfType S c.type c.cache) (hfails : FailsInPlace S env c)
    (hstores : StoresApart S env c) {ok : Bool}
    (hresult : (c.result (format env S) S).2.2 = .returned ok) (j : Nat) :
    TracksAt S c.type {} (c.result (format env S) S).2.1
      (choicesBehind S (format env S) c.fuel c chosen) j := by
  induction hfuel : c.fuel generalizing c chosen with
  | zero =>
    rw [LoopCall.result, hfuel] at hresult
    cases hresult
  | succ fuel ih =>
    rw [choicesBehind]
    cases hx : c.iteration (format env S) S with
    | none =>
      have hapart := hstores.cachedApart fun x hx' => by
        rw [hx] at hx'
        cases hx'
      exact h.finish hformed hcached hapart hx hresult j
    | some x =>
      have hxFormed := hformed.iteration format_typed hx
      obtain ⟨hindex, hmessage, hpure⟩ := @result_placeProperty env S c.type x hxFormed
      have hapart (hne : c.cache.index ≠ some x.index) :=
        hstores.cachedApart fun x' hx' => by
          rw [hx] at hx'
          cases hx'
          exact hne
      obtain ⟨hselected, htracks⟩ := h.select hformed hcached hapart hx
      have hplaced (j : Nat) := (htracks j).place hxFormed.field hxFormed.index hindex hpure
      rw [← hmessage] at hplaced
      cases hnext : c.next (format env S) S with
      | none =>
        simp only
        have hstopped : (x.result (format env S) S).stop = some (.returned false) := by
          cases hstop : (x.result (format env S) S).stop with
          | none => simp [LoopCall.next, hx, hstop] at hnext
          | some outcome =>
            rw [LoopCall.result_of_iteration hx, hstop] at hresult
            simp only at hresult
            cases ok with
            | false => rw [hresult]
            | true => exact absurd (hstop.trans (congrArg some hresult)) x.stop_ne_returned_true
        rw [LoopCall.result_of_iteration hx, hstopped]
        refine ⟨(hplaced j).typed, (hplaced j).number, fun n v hnv _ => ?_⟩
        refine (hplaced j).value n v hnv fun i f hi hf hpresence hpure => ?_
        rw [hindex] at hi
        cases hi
        rw [hxFormed.field] at hf
        cases hf
        obtain ⟨t', htype⟩ : ∃ t', x.field.type = .message t' := by
          cases htype : x.field.type <;> simp_all [PropertyType.isPureMessage]
        have hnumber := (hplaced j).number
        rw [hnv, hmessage, number_placeProperty] at hnumber
        have hpos := ((hplaced j).typed n v hnv).number_pos
        simp only [Option.map_some, Option.getD_some] at hnumber
        rcases hfails c x j t' (.refl c) hx hstopped hpresence htype with hzero | hsame
        · omega
        · rw [← hnumber, hsame]
      | some c' =>
        simp only
        obtain ⟨x', hx', hstop, rfl⟩ := LoopCall.next_eq_some hnext
        rw [hx] at hx'
        cases hx'
        have hcfuel := (LoopCall.iteration_eq_some hx).1
        rw [LoopCall.result_of_next hnext] at hresult ⊢
        exact ih (fun k => hplaced k) (hformed.next format_typed hnext)
          (hselected.result hxFormed hstop)
          (fun e x j t' he => hfails e x j t' (.next hnext he))
          (fun e i j f he => hstores e i j f (.next hnext he)) hresult (by simp only; omega)

/-- A decoding that succeeds does not fail within a field. -/
theorem failsInPlace_of_returned_true {c : LoopCall Deserializer}
    (h : (c.result (format env S) S).2.2 = .returned true) : FailsInPlace S env c := by
  intro e x j t' he hx hstop
  have hresult : (e.result (format env S) S).2.2 = .returned false := by
    rw [LoopCall.result_of_iteration hx, hstop]
  induction he with
  | refl c =>
    rw [h] at hresult
    cases hresult
  | next hnext _ ih =>
    rw [LoopCall.result_of_next hnext] at h
    exact ih h hx hresult

/-- The oneofs of a message that was deserialized hold what the decoder has stored. -/
theorem tracks_deserialize {s s' : Serializer} {fuel : Nat} {data : Bytes} {m : Message} {ok : Bool}
    (h : s.deserialize env S fuel t data = (s', m, .returned ok))
    (hkeeps : data.length ≤ s.effectiveMaximumInputSize →
      FailsInPlace S env (startCall S t s fuel data) ∧ StoresApart S env (startCall S t s fuel data))
    (j : Nat) :
    TracksAt S t {} m
      (if data.length > s.effectiveMaximumInputSize then fun _ => none
        else choicesBehind S (format env S) fuel (startCall S t s fuel data) fun _ => none) j := by
  unfold Serializer.deserialize at h
  by_cases hsize : data.length > s.effectiveMaximumInputSize
  · simp only [if_pos hsize, Prod.mk.injEq] at h
    rw [if_pos hsize, ← h.2.1]
    exact tracksAt_unset S t j {}
  · simp only [if_neg hsize] at h
    rw [if_neg hsize]
    have hloop : deserializeMessage (format env S) S fuel t
        (Serializer.started s.deserializer data) (S.defaultMessage t) =
          (startCall S t s fuel data).result (format env S) S := rfl
    rw [hloop] at h
    cases hresult : (startCall S t s fuel data).result (format env S) S with
    | mk d r =>
      obtain ⟨m', outcome⟩ := r
      rw [hresult] at h
      cases outcome with
      | outOfFuel => simp at h
      | returned done =>
        simp only [Prod.mk.injEq] at h
        have htracks : TracksCall S (startCall S t s fuel data) fun _ => none :=
          fun j => tracksAt_unset S t j {}
        have hreturned : ((startCall S t s fuel data).result (format env S) S).2.2 =
            .returned done := by rw [hresult]
        obtain ⟨hfails, hstores⟩ := hkeeps (Nat.not_lt.mp hsize)
        have hdone := htracks.result (.stored rfl (defaultMessage_wellFormed S t))
          (fun _ _ _ hindex => by cases hindex) hfails hstores hreturned j
        rw [hresult] at hdone
        rw [← h.2.1]
        exact hdone

end

/-! ## Runs -/

section

variable (env : Environment) (S : Schema) (equal : Nat → Message → Message → Option Message)
  (t : MessageType)

/-- The objects of a class, with a record of what was stored in their oneofs. -/
def oneofStep : (Nat → Message) × (Nat → Choices) → OneofCall →
    Option ((Nat → Message) × (Nat → Choices)) :=
  Transition.observed (OneofCall.step S equal t env) (OneofCall.record S t env)

/-- New objects. -/
def newObjects : (Nat → Message) × (Nat → Choices) := (fun _ => S.defaultMessage t, fun _ _ => none)

variable {env S equal t}

theorem TracksAt.chosen_of_zero {cache : Cache} {m : Message} {chosen : Choices} {j : Nat}
    (h : TracksAt S t cache m chosen j) (hzero : (m.oneofState j).1 = 0) : chosen j = none := by
  cases hchosen : chosen j with
  | none => rfl
  | some c =>
    obtain ⟨n, v⟩ := c
    have hnumber := h.number
    have hpos := (h.typed n v hchosen).number_pos
    rw [hchosen, hzero] at hnumber
    simp only [Option.map_some, Option.getD_some] at hnumber
    omega

/-- A setter stores its argument, if this is told apart from the value it takes the place of. -/
theorem TracksAt.setter {m : Message} {chosen : Choices} {i j k : Nat} {f : FieldInfo} {v : Value}
    (h : TracksAt S t {} m chosen j) (hf : (S.propertyOrdering t).fields[i]? = some f)
    (hpresence : f.presence = .oneof k) (hv : isOfType f.type v = true)
    (hapart : (m.oneofState k).1 = f.fieldNumber → ToldApart S equal (m.oneofState k).2 v) :
    TracksAt S t {} (setterOneof S equal m f k v) (chosen.store f v) j := by
  by_cases hjk : j = k
  · subst hjk
    refine TracksAt.set hf hpresence hv ?_
    by_cases hn : (m.oneofState j).1 = f.fieldNumber
    · have hkept := (hapart hn).keptValue
      simp [setterOneof, Message.oneofState] at hn hkept ⊢
      simp [hn, hkept]
    · simp [setterOneof, Message.oneofState] at hn ⊢
      simp [hn]
  · have hne : f.presence ≠ .oneof j := by
      rw [hpresence]
      exact fun heq => hjk (Presence.oneof.inj heq).symm
    have hsame : chosen.store f v j = chosen j := store_of_ne hne
    have hstate : (setterOneof S equal m f k v).oneofState j = m.oneofState j := by
      simp [setterOneof, Message.oneofState, hjk]
    refine ⟨by rw [hsame]; exact h.typed, by rw [hsame, hstate]; exact h.number, ?_⟩
    rw [hsame, hstate]
    exact h.value

/-- A oneof that is cleared holds nothing. -/
theorem TracksAt.clear {m : Message} {chosen : Choices} {j : Nat} (h : TracksAt S t {} m chosen j)
    (k : Nat) : TracksAt S t {} (clearOneof m k) (Function.update chosen k none) j := by
  by_cases hjk : j = k
  · subst hjk
    have hzero : ((clearOneof m j).oneofState j).1 = 0 := by
      unfold clearOneof
      split
      · assumption
      · simp [Message.oneofState]
    exact ⟨by simp, by simpa using hzero, by simp⟩
  · have hstate : (clearOneof m k).oneofState j = m.oneofState j := by
      unfold clearOneof
      split
      · rfl
      · simp [Message.oneofState, hjk]
    have hsame : Function.update chosen k none j = chosen j := Function.update_of_ne hjk _ _
    refine ⟨by rw [hsame]; exact h.typed, by rw [hsame, hstate]; exact h.number, ?_⟩
    rw [hsame, hstate]
    exact h.value

/-- A message member that is read leaves an unset oneof unset, and a message of its type as it is. -/
theorem TracksAt.readKept {m : Message} {chosen : Choices} {i j : Nat} {f : FieldInfo}
    (h : TracksAt S t {} m chosen j) (hf : (S.propertyOrdering t).fields[i]? = some f)
    (hkeeps : ∀ t', f.presence = .oneof j → f.type = .message t' →
      (m.oneofState j).1 = 0 ∨ ∃ sub, (m.oneofState j).2 = .message t' sub) :
    TracksAt S t {} (S.initializedProperty m i f).1 chosen j := by
  have hread := @TracksAt.read S t m chosen i j f { index := some i } h hf rfl
  refine ⟨hread.typed, hread.number, fun n v hnv _ => ?_⟩
  by_cases hmember : f.presence = .oneof j ∧ ∃ t', f.type = .message t'
  · obtain ⟨hpresence, t', htype⟩ := hmember
    rcases hkeeps t' hpresence htype with hzero | ⟨sub, hsub⟩
    · rw [h.chosen_of_zero hzero] at hnv
      cases hnv
    · have hstate : (S.initializedProperty m i f).1.oneofState j = m.oneofState j := by
        have hensure : S.ensureMessage t' (.message t' sub) = sub := by simp [Schema.ensureMessage]
        unfold Schema.initializedProperty
        simp only [hpresence, htype, hsub, hensure]
        rw [← hsub]
        simp [Message.oneofState]
      rw [hstate]
      exact h.value n v hnv fun i f hi => by cases hi
  · refine hread.value n v hnv fun k g hk hg hpresence hpure => ?_
    cases hk
    rw [hf] at hg
    cases hg
    refine absurd ⟨hpresence, ?_⟩ hmember
    cases htype : f.type <;> simp_all [PropertyType.isPureMessage]

/-- An operation that keeps the members leaves the oneofs of all objects tracked. -/
theorem tracks_oneofStep {s next : (Nat → Message) × (Nat → Choices)} {call : OneofCall}
    (h : ∀ a j, TracksAt S t {} (s.1 a) (s.2 a) j) (hkeeps : call.KeepsMember S equal t env s.1)
    (hstep : oneofStep env S equal t s call = some next) (a j : Nat) :
    TracksAt S t {} (next.1 a) (next.2 a) j := by
  obtain ⟨hobjects, hrecord⟩ := Transition.observed_eq_some _ _ hstep
  rw [hrecord]
  have hupdate {a' : Nat} {m : Message} {chosen : Choices}
      (hnext : next.1 = Function.update s.1 a' m)
      (hm : ∀ j, TracksAt S t {} m chosen j) :
      TracksAt S t {} (next.1 a) (Function.update s.2 a' chosen a) j := by
    rw [hnext]
    by_cases ha : a = a'
    · subst ha
      rw [Function.update_self, Function.update_self]
      exact hm j
    · rw [Function.update_of_ne ha, Function.update_of_ne ha]
      exact h a j
  cases call with
  | set a' i v =>
    simp only [OneofCall.step] at hobjects
    simp only [OneofCall.record]
    cases hf : (S.propertyOrdering t).fields[i]? with
    | none => simp [hf] at hobjects
    | some f =>
      simp only [hf] at hobjects ⊢
      cases hpresence : f.presence with
      | oneof k =>
        simp only [hpresence] at hobjects
        split at hobjects
        · rename_i hv
          exact hupdate (Option.some.inj hobjects).symm fun j =>
            (h a' j).setter hf hpresence hv (hkeeps f k hf hpresence)
        · cases hobjects
      | _ => simp [hpresence] at hobjects
  | clear a' k => exact hupdate (Option.some.inj hobjects).symm fun j => (h a' j).clear k
  | copy a' b => exact hupdate (Option.some.inj hobjects).symm fun j => h b j
  | readProperty a' i =>
    obtain ⟨f, hf, hnext⟩ := Option.map_eq_some_iff.mp hobjects
    rw [← hnext]
    change TracksAt S t {} _ (s.2 a) j
    by_cases ha : a = a'
    · subst ha
      rw [Function.update_self]
      exact (h a j).readKept hf fun t' => hkeeps f j t' hf
    · rw [Function.update_of_ne ha]
      exact h a j
  | deserialize a' serializer fuel data =>
    simp only [OneofCall.step] at hobjects
    cases hresult : serializer.deserialize env S fuel t data with
    | mk s' r =>
      obtain ⟨m, outcome⟩ := r
      rw [hresult] at hobjects
      cases outcome with
      | outOfFuel => cases hobjects
      | returned ok =>
        exact hupdate (Option.some.inj hobjects).symm fun j => tracks_deserialize hresult hkeeps j

end

/-- In every state of a run the oneofs of all objects are consistent, if no operation of the run puts
a message in the place of the value of another member. -/
theorem oneofsConsistent_of_run (env : Environment) (S : Schema)
    (equal : Nat → Message → Message → Option Message) (t : MessageType) (calls : List OneofCall)
    (final : (Nat → Message) × (Nat → Choices))
    (halong : Transition.Along (oneofStep env S equal t)
      (fun s call => call.KeepsMember S equal t env s.1) (newObjects S t) calls)
    (hrun : Transition.run (oneofStep env S equal t) (newObjects S t) calls = some final) (a : Nat) :
    OneofsConsistent S t (final.1 a) (final.2 a) := by
  refine oneofsConsistent_of_tracks ?_
  exact Transition.run_invariant_along _ _
    (fun s : (Nat → Message) × (Nat → Choices) => ∀ a j, TracksAt S t {} (s.1 a) (s.2 a) j)
    (fun _ _ _ h hkeeps hstep => tracks_oneofStep h hkeeps hstep) _ final calls
    (fun _ j => tracksAt_unset S t j {}) halong hrun a

/-- A radius is stored and read, another shape gets a center from the decoder, and is copied. -/
def shapeCalls : List OneofCall :=
  [.set 0 2 (.scalar ⟨.double, (0x3FF0000000000000 : BitVec 64)⟩), .readProperty 0 2,
    .deserialize 1 .initial 9 [0x0A, 0x02, 0x08, 0x01], .readProperty 1 0, .copy 0 1]

/-- The objects behind some operations on new shapes. -/
def shapesBehind (calls : List OneofCall) : Option ((Nat → Message) × (Nat → Choices)) :=
  Transition.run (oneofStep nullTerminated shapeSchema (fun _ _ _ => none) (.named 0))
    (newObjects shapeSchema (.named 0)) calls

/-- The decoding of a center stores it in a oneof that is unset. -/
theorem storesApart_center : StoresApart shapeSchema nullTerminated
    (startCall shapeSchema (.named 0) .initial 9 [0x0A, 0x02, 0x08, 0x01]) := by
  intro e i j f he hindex _ hf hpresence hnumber
  cases he with
  | refl => cases hindex
  | next hnext he =>
    cases hnext
    cases he with
    | refl =>
      cases hindex
      cases hf
      cases hpresence
      cases hnumber
    | next hnext _ => cases hnext

theorem oneofsConsistent_shapeCalls : ∃ final, shapesBehind shapeCalls = some final ∧
    OneofsConsistent shapeSchema (.named 0) (final.1 0) (final.2 0) := by
  refine ⟨_, rfl, oneofsConsistent_of_run nullTerminated shapeSchema (fun _ _ _ => none) (.named 0)
    shapeCalls _ ⟨fun f j hf hpresence hnumber => ?_, fun _ h₁ => ?_⟩ rfl 0⟩
  · cases hf
    cases hpresence
    cases hnumber
  obtain rfl := Option.some.inj h₁
  refine ⟨fun f j t' hf _ htype => ?_, fun _ h₂ => ⟨fun _ => ⟨?_, storesApart_center⟩,
    fun _ h₃ => ?_⟩⟩
  · cases hf
    cases htype
  · exact failsInPlace_of_returned_true rfl
  · obtain rfl := Option.some.inj h₂
    obtain rfl := Option.some.inj h₃
    refine ⟨fun f j t' hf hpresence htype => .inr ?_, fun _ _ => ⟨trivial, fun _ _ => trivial⟩⟩
    cases hf
    cases hpresence
    cases htype
    exact ⟨_, rfl⟩

/-- The number of the radius goes with a radius. -/
theorem isChoice_radius {v : Value} (h : IsChoice shapeSchema (.named 0) 0 3 v) :
    ∃ c, v = .scalar c := by
  obtain ⟨i, f, hf, -, hnumber, hv⟩ := h
  have hv := suits_of_isOfType hv
  have hradius : (shapeSchema.propertyOrdering (.named 0)).fields[2]? = some _ := rfl
  obtain rfl := fieldNumber_injective hf hradius hnumber
  exact hv

/-- Behind some operations a shape holds something else than its last radius under the number of the
radius. -/
def MistakenForRadius (calls : List OneofCall) : Prop :=
  ∃ final, shapesBehind calls = some final ∧ holdsField ((final.1 0).oneofState 0) 3 = true ∧
    ¬OneofsConsistent shapeSchema (.named 0) (final.1 0) (final.2 0)

/-- A shape with a radius whose center is read through the meta object, and one whose center is cut
off behind its radius, hold a center under the number of the radius. A shape whose radius was set to
`0.0` and then to `-0.0` holds the first one. -/
theorem not_oneofsConsistent_shapes :
    MistakenForRadius
      [.set 0 2 (.scalar ⟨.double, (0x3FF0000000000000 : BitVec 64)⟩), .readProperty 0 0] ∧
    MistakenForRadius
      [.deserialize 0 .initial 13 [0x19, 0, 0, 0, 0, 0, 0, 0xF0, 0x3F, 0x0A, 0x01, 0x08]] ∧
    MistakenForRadius
      [.set 0 2 (.scalar ⟨.double, (0 : BitVec 64)⟩),
        .set 0 2 (.scalar ⟨.double, (0x8000000000000000 : BitVec 64)⟩)] := by
  refine ⟨⟨_, rfl, rfl, fun h => ?_⟩, ⟨_, rfl, rfl, fun h => ?_⟩, ⟨_, rfl, rfl, fun h => ?_⟩⟩
  · obtain ⟨c, hc⟩ := isChoice_radius (h.typed 0 (by decide))
    cases hc
  · obtain ⟨c, hc⟩ := isChoice_radius (h.typed 0 (by decide))
    cases hc
  · have hlast := h.last 0 3 rfl
    cases hlast

end QtGrpc.Protobuf.Binary
