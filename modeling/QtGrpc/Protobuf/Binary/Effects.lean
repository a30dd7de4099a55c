import QtGrpc.Protobuf.Binary.Settling

/-!
# What a field leaves of the property of another

A field only changes its own property, except that the members of a oneof displace each other.
The property in the cache is written when the first field of another number comes.
-/

namespace QtGrpc.Protobuf.Binary

/-- What a message holds for a field; a oneof set to another member holds nothing for it. -/
def storedIn (f : FieldInfo) (i : Nat) (m : Message) : Value :=
  match f.presence with
  | .oneof j => if (m.oneofState j).1 = f.fieldNumber then (m.oneofState j).2 else .null
  | _ => m.member (.field i)

/-- What a message holds for a field is left, or another member of its oneof has displaced it. -/
def Displaced (f : FieldInfo) (old new : Value) : Prop :=
  new = old ∨ (∃ j, f.presence = .oneof j) ∧ (new = .null ∨ ∃ t sub, new = .message t sub)

/-- What is left as it is counts as not displaced. -/
theorem Displaced.refl (f : FieldInfo) (v : Value) : Displaced f v v := .inl rfl

/-- What is displaced in two steps is displaced. -/
theorem Displaced.trans {f : FieldInfo} {u v w : Value} (h : Displaced f u v)
    (h' : Displaced f v w) : Displaced f u w := by
  rcases h' with rfl | h'
  · exact h
  · exact .inr h'

section

variable {S : Schema} {t : MessageType} {i k : Nat} {f g : FieldInfo} {m m' : Message}

/-- Only the member of the field counts. -/
theorem storedIn_of_member (h : m.member (f.memberAt i) = m'.member (f.memberAt i)) :
    storedIn f i m = storedIn f i m' := by
  unfold storedIn
  unfold FieldInfo.memberAt at h
  cases hpresence : f.presence with
  | oneof j =>
    simp only [hpresence] at h
    have hstate : m.oneofState j = m'.oneofState j := by simp only [Message.oneofState, h]
    simp only [hstate]
  | _ =>
    simp only [hpresence] at h
    exact h

/-- What was written is held. -/
theorem storedIn_writeProperty (m : Message) (i : Nat) (f : FieldInfo) (v : Value) :
    storedIn f i (writeProperty S m i f v) = storedValue S f v := by
  unfold storedIn writeProperty storedContent FieldInfo.memberAt
  cases f.presence with
  | oneof j => simp [Message.oneofState]
  | _ => simp

/-- Two fields share a member only if it is that of a oneof. -/
theorem memberAt_ne (hki : k ≠ i) (h : ∀ j, g.presence = .oneof j → f.presence ≠ .oneof j) :
    f.memberAt i ≠ g.memberAt k := by
  unfold FieldInfo.memberAt
  cases hg : g.presence <;> cases hf : f.presence <;> simp_all [Ne.symm hki]

/-- A change at another field displaces the content at most by unsetting the oneof or by a
message. -/
theorem displaced_of_sameElsewhere (hki : k ≠ i) (h : SameElsewhere k g m' m)
    (honeof : ∀ j, g.presence = .oneof j → f.presence = .oneof j →
      m'.oneofState j = m.oneofState j ∨ (m'.oneofState j).1 ≠ f.fieldNumber ∨
        ∃ t sub, (m'.oneofState j).2 = .message t sub) :
    Displaced f (storedIn f i m) (storedIn f i m') := by
  by_cases hshared : ∃ j, g.presence = .oneof j ∧ f.presence = .oneof j
  · obtain ⟨j, hg, hf⟩ := hshared
    unfold storedIn
    rw [hf]
    rcases honeof j hg hf with heq | hnumber | ⟨t, sub, hmessage⟩
    · simp only [heq]
      exact .refl f _
    · simp only [if_neg hnumber]
      exact .inr ⟨⟨j, hf⟩, .inl rfl⟩
    · by_cases hnumber : (m'.oneofState j).1 = f.fieldNumber
      · simp only [if_pos hnumber]
        exact .inr ⟨⟨j, hf⟩, .inr ⟨t, sub, hmessage⟩⟩
      · simp only [if_neg hnumber]
        exact .inr ⟨⟨j, hf⟩, .inl rfl⟩
  · have hne := memberAt_ne (f := f) (g := g) hki fun j hg hf => hshared ⟨j, hg, hf⟩
    exact .inl (storedIn_of_member (h.1 _ hne))

/-- Reading another field's property leaves a value or displaces it. -/
theorem displaced_initializedProperty (hki : k ≠ i) (m : Message) :
    Displaced f (storedIn f i m) (storedIn f i (S.initializedProperty m k g).1) := by
  refine displaced_of_sameElsewhere hki (sameElsewhere_initializedProperty m k g) fun j hg _ => ?_
  unfold Schema.initializedProperty
  rw [hg]
  cases g.type with
  | message t' =>
    exact .inr (.inr ⟨t', S.ensureMessage t' (m.oneofState j).2, by simp [Message.oneofState]⟩)
  | _ =>
    simp only
    split <;> exact .inl rfl

/-- Placing another field's property leaves a value or displaces it. -/
theorem displaced_placeProperty (hki : k ≠ i) (m : Message) {v : Value} (hv : v.Suits g.type) :
    Displaced f (storedIn f i m) (storedIn f i (placeProperty m k g v)) := by
  refine displaced_of_sameElsewhere hki (sameElsewhere_placeProperty m k g v) fun j hg _ => ?_
  unfold placeProperty
  split
  · rename_i hpure
    cases htype : g.type with
    | message t' =>
      rw [htype] at hv
      obtain ⟨sub, rfl⟩ := hv
      exact .inr (.inr ⟨t', sub, by simp [Message.writeThrough, hg, Message.oneofState]⟩)
    | _ => simp [htype, PropertyType.isPureMessage] at hpure
  · exact .inl rfl

/-- Setting a property changes the member of its field only. -/
theorem sameElsewhere_setMessageProperty (m : Message) (k : Nat) (g : FieldInfo) (v : Value) :
    SameElsewhere k g (S.setMessageProperty m k g v).1 m := by
  have hset := sameElsewhere_setMember m k g
  unfold FieldInfo.memberAt at hset
  unfold Schema.setMessageProperty
  split
  · exact ⟨fun _ _ => rfl, rfl⟩
  · cases hp : g.presence with
    | oneof j =>
      simp only [hp] at hset ⊢
      split
      · exact ⟨fun _ _ => rfl, rfl⟩
      · exact hset _
    | optional | mapEntry =>
      simp only [hp] at hset ⊢
      split
      · exact ⟨fun _ _ => rfl, rfl⟩
      · exact hset _
    | implicit | required =>
      simp only [hp] at hset ⊢
      exact hset _

/-- Setting another field's property leaves a value or displaces it. -/
theorem displaced_setMessageProperty (hg : (S.propertyOrdering t).fields[k]? = some g)
    (hf : (S.propertyOrdering t).fields[i]? = some f) (hki : k ≠ i) (m : Message) (v : Value) :
    Displaced f (storedIn f i m) (storedIn f i (S.setMessageProperty m k g v).1) := by
  have hnumber : g.fieldNumber ≠ f.fieldNumber := by
    intro heq
    have hk := indexOfFieldNumber_of_getElem? hg
    rw [heq, indexOfFieldNumber_of_getElem? hf] at hk
    exact hki (Option.some.inj hk).symm
  refine displaced_of_sameElsewhere hki (sameElsewhere_setMessageProperty m k g v) fun j hj _ => ?_
  unfold Schema.setMessageProperty
  split
  · exact .inl rfl
  · simp only [hj]
    split
    · exact .inl rfl
    · exact .inr (.inl (by simpa [Message.oneofState] using hnumber))

/-- A property that is no message is only looked at. -/
theorem initializedProperty_of_not_isPureMessage (hf : f.type.isPureMessage = false) (m : Message)
    (i : Nat) : (S.initializedProperty m i f).1 = m := by
  unfold Schema.initializedProperty
  cases htype : f.type with
  | message t' => simp [htype, PropertyType.isPureMessage] at hf
  | _ =>
    cases f.presence with
    | oneof j =>
      simp only
      split <;> rfl
    | _ => rfl

end

/-! ## One field -/

section

variable {env : Environment} {S : Schema} {keep : Bool} {t : MessageType} {i : Nat}
  {f : FieldInfo} {x : WireField} {p q : Draft}

variable (env S keep t x i f) in
/-- What becomes of the content and the cached property of a field at an occurrence of it, or of
another field. -/
inductive Effect (p q : Draft) : Prop where
  | skipped (hx : (S.propertyOrdering t).indexOfFieldNumber x.fieldNumber = none)
      (hcache : q.cache = p.cache) (hstored : storedIn f i q.message = storedIn f i p.message)
  | other {k : Nat} (hx : (S.propertyOrdering t).indexOfFieldNumber x.fieldNumber = some k)
      (hk : k ≠ i) (hp : p.cache.index ≠ some i) (hq : q.cache.index = some k)
      (hstored : Displaced f (storedIn f i p.message) (storedIn f i q.message))
  | written {k : Nat} (hx : (S.propertyOrdering t).indexOfFieldNumber x.fieldNumber = some k)
      (hk : k ≠ i) (hp : p.cache.index = some i) (hq : q.cache.index = some k)
      (hstored : Displaced f
        (storedIn f i (S.setMessageProperty p.message i f p.cache.propertyValue).1)
        (storedIn f i q.message))
  | first (hx : (S.propertyOrdering t).indexOfFieldNumber x.fieldNumber = some i)
      (hp : p.cache.index ≠ some i) (hq : q.cache.index = some i) (m : Message)
      (hm : Displaced f (storedIn f i p.message) (storedIn f i m))
      (hstored : storedIn f i q.message = storedIn f i m)
      (h : Turns env S keep x f none (S.initializedProperty m i f).2 q.cache.mapEntry
        q.cache.propertyValue)
  | next (hx : (S.propertyOrdering t).indexOfFieldNumber x.fieldNumber = some i)
      (hp : p.cache.index = some i) (hq : q.cache.index = some i)
      (hstored : storedIn f i q.message = storedIn f i p.message)
      (h : Turns env S keep x f p.cache.mapEntry p.cache.propertyValue q.cache.mapEntry
        q.cache.propertyValue)

/-- The property in the cache is one of its field. -/
theorem Draft.Sound.property (h : p.Sound S t) {k : Nat} {g : FieldInfo}
    (hk : p.cache.index = some k) (hg : (S.propertyOrdering t).fields[k]? = some g) :
    IsProperty S g p.cache.propertyValue := by
  cases h.pending with
  | stored hindex _ => simp [hindex] at hk
  | cached hindex hf hv _ =>
    rw [hindex] at hk
    cases hk
    rw [hg] at hf
    cases hf
    exact hv

/-- The property in the cache is written to its member. -/
theorem Draft.Sound.store_cached (h : p.Sound S t) {k : Nat} {g : FieldInfo}
    (hk : p.cache.index = some k) (hg : (S.propertyOrdering t).fields[k]? = some g) {c : Cache}
    {m : Message} (hstore : storeCachedValue S t p.cache p.message = (c, m, true)) :
    m = (S.setMessageProperty p.message k g p.cache.propertyValue).1 := by
  have hnull := (h.property hk hg).suits.isNull
  simp only [storeCachedValue, hk, hnull, hg, Bool.false_eq_true, if_false, Prod.mk.injEq] at hstore
  exact hstore.2.1.symm

/-- Writing the cached property displaces the contents of other fields at most. -/
theorem Draft.Sound.store_displaced (h : p.Sound S t)
    (hf : (S.propertyOrdering t).fields[i]? = some f) (hi : p.cache.index ≠ some i) {c : Cache}
    {m : Message} (hstore : storeCachedValue S t p.cache p.message = (c, m, true)) :
    Displaced f (storedIn f i p.message) (storedIn f i m) := by
  cases hk : p.cache.index with
  | none =>
    simp only [storeCachedValue, hk] at hstore
    cases hstore
    exact .refl f _
  | some k =>
    cases hpending : h.pending with
    | stored hindex _ => simp [hindex] at hk
    | cached hindex hg hv _ =>
      rw [hindex] at hk
      cases hk
      rw [h.store_cached hindex hg hstore]
      exact displaced_setMessageProperty hg hf (fun heq => hi (by rw [hindex, heq])) _ _

/-- One field has one of these effects on the property of a field that is no message. -/
theorem Decodes.effect (h : Decodes env S keep t [x] p q) (hp : p.Sound S t)
    (hf : (S.propertyOrdering t).fields[i]? = some f) (hpure : f.type.isPureMessage = false) :
    Effect env S keep t i f x p q := by
  have hx := h.complete x List.mem_cons_self
  cases hindex : (S.propertyOrdering t).indexOfFieldNumber x.fieldNumber with
  | none =>
    obtain rfl := (decodes_unknown_iff hx hindex).mp h
    exact .skipped hindex rfl (storedIn_of_member (by simp))
  | some k =>
    obtain ⟨g, hg⟩ := exists_field_of_indexOfFieldNumber hindex
    obtain ⟨c, m, entry, v, hselect, hturns, rfl⟩ := (decodes_known_iff hx hindex hg).mp h
    rcases hp.select k g with ⟨hk, hselected⟩ | ⟨hk, M, hstore, hselected⟩
    · rw [hselected] at hselect
      cases hselect
      by_cases hki : k = i
      · subst hki
        rw [hf] at hg
        cases hg
        refine .next hindex hk hk ?_ hturns
        rw [Draft.turned, placeProperty_of_not_isPureMessage hpure]
      · refine .other hindex hki (fun heq => hki ?_) hk (displaced_placeProperty hki _ hturns.suits)
        rw [hk] at heq
        exact Option.some.inj heq
    · rw [hselected] at hselect
      cases hselect
      by_cases hki : k = i
      · subst hki
        rw [hf] at hg
        cases hg
        refine .first hindex hk rfl M (hp.store_displaced hf hk hstore) ?_ hturns
        rw [Draft.turned, placeProperty_of_not_isPureMessage hpure,
          initializedProperty_of_not_isPureMessage hpure]
      · have hdisplaced : Displaced f (storedIn f i M) (storedIn f i (placeProperty
            (S.initializedProperty M k g).1 k g v)) :=
          (displaced_initializedProperty hki M).trans (displaced_placeProperty hki _ hturns.suits)
        by_cases hi : p.cache.index = some i
        · refine .written hindex hki hi rfl ?_
          rw [← hp.store_cached hi hf hstore]
          exact hdisplaced
        · exact .other hindex hki hi rfl ((hp.store_displaced hf hi hstore).trans hdisplaced)

end

end QtGrpc.Protobuf.Binary
