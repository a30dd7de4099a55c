import QtGrpc.Protobuf.Binary.Drafts

/-!
# Properties that are stored as they are

If the setters store what they are given, it does not matter when the loop writes a property back:
a draft stands for the message it becomes when its property is written, and what a field makes of
the draft is what it makes of this message. The fields this is asked of are a parameter, since a
setter keeps an old value that it takes for equal to the new one.
-/

namespace QtGrpc.Protobuf.Binary

section

variable (S : Schema)

/-- The value a setter stores for a property. -/
def storedValue (f : FieldInfo) (v : Value) : Value := (S.convert f.type v).getD v

/-- What the member of a field holds then. -/
def storedContent (f : FieldInfo) (v : Value) : Value :=
  match f.presence with
  | .oneof _ => .oneof f.fieldNumber (storedValue S f v)
  | _ => storedValue S f v

/-- The message with a property written as it is. -/
def writeProperty (m : Message) (i : Nat) (f : FieldInfo) (v : Value) : Message :=
  m.setMember (f.memberAt i) (storedContent S f v)

/-- The message only differs in the member of a field. -/
def SameElsewhere (i : Nat) (f : FieldInfo) (m m' : Message) : Prop :=
  (∀ y ≠ f.memberAt i, m.member y = m'.member y) ∧ m.unknownEntries = m'.unknownEntries

end

section

variable {S : Schema} {t : MessageType} {i : Nat} {f : FieldInfo} {m m' : Message}

/-- Messages with the same members and unknown entries are the same. -/
theorem Message.ext_member {m m' : Message} (h : m.member = m'.member)
    (h' : m.unknownEntries = m'.unknownEntries) : m = m' := by
  cases m
  cases m'
  exact congrArg₂ Message.mk h h'

/-- Storing the one member in which messages differ makes them the same. -/
theorem setMember_of_sameElsewhere (h : SameElsewhere i f m m') (content : Value) :
    m.setMember (f.memberAt i) content = m'.setMember (f.memberAt i) content := by
  refine Message.ext_member (funext fun y => ?_) h.2
  by_cases hy : y = f.memberAt i
  · rw [hy, Message.member_setMember_self, Message.member_setMember_self]
  · rw [Message.member_setMember_of_ne _ _ hy, Message.member_setMember_of_ne _ _ hy, h.1 y hy]

/-- What the member held before does not matter. -/
theorem writeProperty_of_sameElsewhere (h : SameElsewhere i f m m') (v : Value) :
    writeProperty S m i f v = writeProperty S m' i f v :=
  setMember_of_sameElsewhere h _

/-- Storing a field's member changes no other. -/
theorem sameElsewhere_setMember (m : Message) (i : Nat) (f : FieldInfo) (content : Value) :
    SameElsewhere i f (m.setMember (f.memberAt i) content) m :=
  ⟨fun _ hy => Message.member_setMember_of_ne m _ hy, rfl⟩

/-- Placing a property changes the member of its field only. -/
theorem sameElsewhere_placeProperty (m : Message) (i : Nat) (f : FieldInfo) (v : Value) :
    SameElsewhere i f (placeProperty m i f v) m := by
  unfold placeProperty
  split
  · have hset := sameElsewhere_setMember m i f
    unfold FieldInfo.memberAt at hset
    unfold Message.writeThrough
    split
    · rename_i j hpresence
      simp only [hpresence] at hset
      exact hset _
    · rename_i hpresence
      cases hp : f.presence <;> simp_all
  · exact ⟨fun _ _ => rfl, rfl⟩

/-- Placing a property switches no oneof. -/
theorem number_placeProperty (m : Message) (i : Nat) (f : FieldInfo) (v : Value) (j : Nat) :
    ((placeProperty m i f v).oneofState j).1 = (m.oneofState j).1 := by
  unfold placeProperty Message.writeThrough
  split
  · split
    · rename_i k hpresence
      by_cases hk : j = k
      · subst hk
        simp [Message.oneofState]
      · simp [Message.oneofState, hk]
    · simp [Message.oneofState]
  · rfl

/-- Reading a property initializes the member of its field only. -/
theorem sameElsewhere_initializedProperty (m : Message) (i : Nat) (f : FieldInfo) :
    SameElsewhere i f (S.initializedProperty m i f).1 m := by
  have hset := sameElsewhere_setMember m i f
  unfold FieldInfo.memberAt at hset
  unfold Schema.initializedProperty
  split
  · rename_i j t' hpresence htype
    simp only [hpresence] at hset
    exact hset _
  · split <;> exact ⟨fun _ _ => rfl, rfl⟩
  · rename_i t' htype honeof
    cases hp : f.presence <;> simp_all
  · exact ⟨fun _ _ => rfl, rfl⟩
  · exact ⟨fun _ _ => rfl, rfl⟩

/-- Reading a property switches no oneof. -/
theorem number_initializedProperty (m : Message) (i : Nat) (f : FieldInfo) (j : Nat) :
    ((S.initializedProperty m i f).1.oneofState j).1 = (m.oneofState j).1 := by
  unfold Schema.initializedProperty
  split
  · rename_i k t' hpresence htype
    by_cases hk : j = k
    · subst hk
      simp [Message.oneofState]
    · simp [Message.oneofState, hk]
  · split <;> rfl
  · simp [Message.oneofState]
  · rfl
  · rfl

/-- A field of another member leaves the oneof as it is. -/
theorem oneofState_of_sameElsewhere {j : Nat} (h : SameElsewhere i f m m')
    (hpresence : f.presence ≠ .oneof j) : m.oneofState j = m'.oneofState j := by
  have hmember : Member.oneof j ≠ f.memberAt i := by
    unfold FieldInfo.memberAt
    cases hf : f.presence <;> simp_all
    rintro rfl
    exact hpresence rfl
  simp only [Message.oneofState, h.1 _ hmember]

/-- To differ in one member only is symmetric. -/
theorem SameElsewhere.symm (h : SameElsewhere i f m m') : SameElsewhere i f m' m :=
  ⟨fun y hy => (h.1 y hy).symm, h.2.symm⟩

/-- To differ in one member only is transitive. -/
theorem SameElsewhere.trans {m'' : Message} (h : SameElsewhere i f m m')
    (h' : SameElsewhere i f m' m'') : SameElsewhere i f m m'' :=
  ⟨fun y hy => (h.1 y hy).trans (h'.1 y hy), h.2.trans h'.2⟩

/-- Only numbers for enumerators are converted. -/
theorem storedValue_of_suits {v : Value} (h : v.Suits f.type) :
    storedValue S f v = v ∨ ∃ e, f.type = .enum e := by
  unfold storedValue Schema.convert
  split
  · rename_i e _ htype
    exact .inr ⟨e, htype⟩
  · rename_i e _ htype
    exact .inr ⟨e, htype⟩
  · rename_i e keys htype
    rw [htype] at h
    obtain ⟨_, _, heq⟩ := h
    cases heq
  · exact .inl rfl

/-- The value that is stored suits the field's type. -/
theorem storedValue_suits {v : Value} (h : v.Suits f.type) : (storedValue S f v).Suits f.type := by
  rcases storedValue_of_suits h with heq | ⟨e, htype⟩
  · rwa [heq]
  · rw [htype] at h
    rcases h with ⟨e', x, rfl⟩ | ⟨x, rfl⟩
    · rw [htype, show storedValue S f (.enumerator e' x) = .enumerator e' x by
        simp [storedValue, Schema.convert]]
      exact .inl ⟨_, _, rfl⟩
    · rw [htype, show storedValue S f (.scalar ⟨.int64, x⟩) = .enumerator e (x.setWidth 32) by
        simp [storedValue, Schema.convert, htype]]
      exact .inl ⟨_, _, rfl⟩

/-- A property that was written is found again. -/
theorem initializedProperty_writeProperty (hf : (S.propertyOrdering t).fields[i]? = some f)
    {v : Value} (hv : v.Suits f.type) :
    S.initializedProperty (writeProperty S m i f v) i f =
      (writeProperty S m i f v, storedValue S f v) := by
  have hnumber := ((S.propertyOrdering t).numbers_bound f (List.mem_of_getElem? hf)).1
  have hnull := (storedValue_suits (S := S) hv).isNull
  have hmessage : ∀ t', f.type = .message t' → ∃ sub, storedValue S f v = .message t' sub := by
    intro t' htype
    have hstored := storedValue_suits (S := S) hv
    rw [htype] at hstored
    exact hstored
  unfold writeProperty storedContent Schema.initializedProperty FieldInfo.memberAt
  generalize storedValue S f v = w at hnull hmessage ⊢
  cases hpresence : f.presence with
  | oneof j =>
    have hstate : (m.setMember (.oneof j) (.oneof f.fieldNumber w)).oneofState j =
        (f.fieldNumber, w) := by
      simp [Message.oneofState]
    cases htype : f.type with
    | message t' =>
      obtain ⟨sub, rfl⟩ := hmessage t' htype
      simp only [hstate, Schema.ensureMessage, if_true]
      rw [Message.setMember_eq_self (by simp)]
    | _ => simp [hstate, holdsField, hnull, Nat.pos_iff_ne_zero.mp hnumber]
  | optional =>
    cases htype : f.type with
    | message t' =>
      obtain ⟨sub, rfl⟩ := hmessage t' htype
      simp only [Message.member_setMember_self, Schema.ensureMessage, if_true]
      rw [Message.setMember_eq_self (by simp)]
    | _ => simp [hnull]
  | _ =>
    cases htype : f.type with
    | message t' =>
      obtain ⟨sub, rfl⟩ := hmessage t' htype
      simp only [Message.member_setMember_self, Schema.ensureMessage, if_true]
      rw [Message.setMember_eq_self (by simp)]
    | _ => simp

end

/-! ## One occurrence of a field -/

section

variable {env : Environment} {S : Schema} {keep : Bool} {x : WireField} {f : FieldInfo}
  {entry entry' : Option Message} {v v' : Value}

/-- A turn leaves a value that suits the field's type. -/
theorem Turns.suits (h : Turns env S keep x f entry v entry' v') : v'.Suits f.type := by
  cases h with
  | plain h => exact h.suits
  | message htype h => rw [htype]; exact ⟨_, rfl⟩
  | messageList htype h => rw [htype]; exact ⟨_, _, rfl⟩
  | entry htype h => rw [htype]; exact ⟨_, rfl⟩
  | custom hhandler h =>
    cases htype : f.type <;> simp_all [Schema.handlerOf, Value.Suits]

/-- Only maps have entries. -/
theorem Turns.entry_eq (h : Turns env S keep x f entry v entry' v') (hmap : f.type.isMap = false) :
    entry' = entry := by
  cases h with
  | entry htype h => simp [htype, PropertyType.isMap] at hmap
  | _ => rfl

/-- A scalar is the one in the payload. -/
theorem Turns.scalar (h : Turns env S keep x f entry v entry' v') {k : ScalarKind}
    (htype : f.type = .scalar k) : v' = .scalar ⟨k, scalarOf env k x.payload⟩ := by
  cases h with
  | plain h =>
    rw [htype] at h
    cases h with
    | scalar hwire => rfl
  | message htype' h => cases htype.symm.trans htype'
  | messageList htype' h => cases htype.symm.trans htype'
  | entry htype' h => cases htype.symm.trans htype'
  | custom hhandler h =>
    rw [htype] at hhandler
    cases hhandler

/-- A number that was read for an enumerator does not depend on the one before. -/
theorem Taken.of_enum {e : Nat} (h : Taken env x f.type v v') (htype : f.type = .enum e)
    (w : Value) : Taken env x f.type w v' := by
  rw [htype] at h ⊢
  cases h with
  | enumerator hwire => exact .enumerator hwire w

/-- Only the next entry of a map counts. -/
theorem Turns.of_isMap {before : Option Message} (h : Turns env S keep x f before v entry' v')
    (hisMap : f.type.isMap = true) (hmap : ∀ key value, f.type = .hash key value →
      S.addNext key value before = S.addNext key value entry) :
    Turns env S keep x f entry v entry' v' := by
  cases h with
  | plain h =>
    have hmessage := h.isMessage
    cases htype : f.type <;> simp_all [PropertyType.isMap, PropertyType.isMessage]
  | message htype h => simp [htype, PropertyType.isMap] at hisMap
  | messageList htype h => simp [htype, PropertyType.isMap] at hisMap
  | entry htype h => exact .entry htype (hmap _ _ htype ▸ h)
  | custom hhandler h => cases htype : f.type <;> simp_all [Schema.handlerOf, PropertyType.isMap]

/-- A number for an enumerator may stand behind any other. -/
theorem Turns.of_enum {e : Nat} (h : Turns env S keep x f entry v entry' v')
    (htype : f.type = .enum e) (w : Value) : Turns env S keep x f entry w entry' v' := by
  cases h with
  | plain h => exact .plain (h.of_enum htype w)
  | message htype' h => cases htype.symm.trans htype'
  | messageList htype' h => cases htype.symm.trans htype'
  | entry htype' h => cases htype.symm.trans htype'
  | custom hhandler h =>
    rw [htype] at hhandler
    cases hhandler

/-- What an occurrence makes of a property does not depend on whether the property was written, nor
on the entry that a map was left with, as long as the next entry is the same. -/
theorem turns_storedValue_iff {before : Option Message} (hv : v.Suits f.type)
    (hmap : ∀ key value, f.type = .hash key value →
      S.addNext key value before = S.addNext key value entry)
    (hplain : f.type.isMap = false → before = entry) :
    Turns env S keep x f before v entry' v' ↔
      Turns env S keep x f entry (storedValue S f v) entry' v' := by
  have hentry (u : Value) : Turns env S keep x f before u entry' v' ↔
      Turns env S keep x f entry u entry' v' := by
    cases hisMap : f.type.isMap with
    | true =>
      exact ⟨fun h => h.of_isMap hisMap hmap,
        fun h => h.of_isMap hisMap fun key value htype => (hmap key value htype).symm⟩
    | false => rw [hplain hisMap]
  rw [hentry]
  rcases storedValue_of_suits (S := S) hv with heq | ⟨e, htype⟩
  · rw [heq]
  · exact ⟨fun h => h.of_enum htype _, fun h => h.of_enum htype _⟩

end

/-! ## Drafts and the messages they stand for -/

section

variable (env : Environment) (S : Schema) (keep : Bool) (t : MessageType)

/-- What a field makes of a message whose properties are all written. -/
inductive Absorbs (x : WireField) : Message → Message → Prop where
  | unknown (m : Message) (hx : x.Complete env)
      (hindex : (S.propertyOrdering t).indexOfFieldNumber x.fieldNumber = none) :
      Absorbs x m (keptMessage keep m x)
  | known {m : Message} {i : Nat} {f : FieldInfo} {entry : Option Message} {v : Value}
      (hx : x.Complete env)
      (hindex : (S.propertyOrdering t).indexOfFieldNumber x.fieldNumber = some i)
      (hfield : (S.propertyOrdering t).fields[i]? = some f)
      (h : Turns env S keep x f none (S.initializedProperty m i f).2 entry v) :
      Absorbs x m (writeProperty S m i f v)

/-- The message a draft stands for when its property is written as it is. -/
inductive Draft.Settles (A : Nat → Prop) : Draft → Message → Prop where
  | stored (m : Message) : Settles A ⟨{}, m⟩ m
  | cached {p : Draft} {i : Nat} {f : FieldInfo} (hindex : p.cache.index = some i) (hi : A i)
      (hfield : (S.propertyOrdering t).fields[i]? = some f)
      (hsuits : p.cache.propertyValue.Suits f.type)
      (hentry : f.type.isMap = false → p.cache.mapEntry = none) :
      Settles A p (writeProperty S p.message i f p.cache.propertyValue)

/-- In front of a sequence of fields: the setter stores the cached property as it is if it is written
now, and the entry a map was left with does not show in an entry that comes now. -/
structure Draft.Exact (A : Nat → Prop) (p : Draft) (xs : List WireField) : Prop where
  written : ∀ i f, p.cache.index = some i → A i → (S.propertyOrdering t).fields[i]? = some f →
    (∀ x, xs.head? = some x →
      ∃ k ≠ i, (S.propertyOrdering t).indexOfFieldNumber x.fieldNumber = some k) →
    S.setMessageProperty p.message i f p.cache.propertyValue =
      (writeProperty S p.message i f p.cache.propertyValue, true)
  entry : ∀ i f x, p.cache.index = some i → A i → (S.propertyOrdering t).fields[i]? = some f →
    xs.head? = some x → (S.propertyOrdering t).indexOfFieldNumber x.fieldNumber = some i →
    ∀ key value, f.type = .hash key value →
      S.addNext key value p.cache.mapEntry = S.addNext key value none

end

section

variable {env : Environment} {S : Schema} {keep : Bool} {t : MessageType} {A : Nat → Prop}
  {p p' q : Draft} {M : Message} {x : WireField} {zs : List WireField}

/-- The message is what is written if the setter stores the property as it is. -/
theorem Draft.Settles.stores (h : p.Settles S t A M)
    (hexact : ∀ i f, p.cache.index = some i → A i → (S.propertyOrdering t).fields[i]? = some f →
      S.setMessageProperty p.message i f p.cache.propertyValue =
        (writeProperty S p.message i f p.cache.propertyValue, true)) :
    storeCachedValue S t p.cache p.message = ({}, M, true) := by
  cases h with
  | stored m => rfl
  | cached hindex hi hfield hsuits hentry =>
    simp only [storeCachedValue, hindex, hsuits.isNull, Bool.false_eq_true, if_false, hfield,
      hexact _ _ hindex hi hfield]

/-- The message is what is written at the end. -/
theorem Draft.Settles.store (h : p.Settles S t A M) (hexact : p.Exact S t A []) :
    storeCachedValue S t p.cache p.message = ({}, M, true) :=
  h.stores fun i f hi hA hf => hexact.written i f hi hA hf (by simp)

/-- Another field finds its property in the message. -/
theorem Draft.Settles.select (h : p.Settles S t A M) (hexact : p.Exact S t A (x :: zs)) {i : Nat}
    (f : FieldInfo) (hindex : (S.propertyOrdering t).indexOfFieldNumber x.fieldNumber = some i)
    (hi : p.cache.index ≠ some i) :
    selectProperty S t i f p.cache p.message =
      ({ index := some i, propertyValue := (S.initializedProperty M i f).2 },
        (S.initializedProperty M i f).1, true) := by
  have hstore := h.stores fun k g hk hA hg => hexact.written k g hk hA hg fun y hy => by
    obtain rfl := Option.some.inj hy
    exact ⟨i, fun hik => hi (hik ▸ hk), hindex⟩
  simp only [selectProperty, if_neg hi, hstore, if_true]

/-- The property a field is read into is the one the message has. -/
theorem Draft.Settles.selected (h : p.Settles S t A M) (hexact : p.Exact S t A (x :: zs)) {i : Nat}
    {f : FieldInfo} (hf : (S.propertyOrdering t).fields[i]? = some f)
    (hx : (S.propertyOrdering t).indexOfFieldNumber x.fieldNumber = some i) :
    ∃ c m, selectProperty S t i f p.cache p.message = (c, m, true) ∧ c.index = some i ∧
      (f.type.isMap = false → c.mapEntry = none) ∧ SameElsewhere i f m M ∧
      ∀ (entry : Option Message) (v : Value),
        Turns env S keep x f c.mapEntry c.propertyValue entry v ↔
          Turns env S keep x f none (S.initializedProperty M i f).2 entry v := by
  by_cases hi : p.cache.index = some i
  · cases h with
    | stored m => cases hi
    | cached hindex hiA hfield hsuits hentry =>
      rw [hindex] at hi
      cases hi
      rw [hf] at hfield
      cases hfield
      refine ⟨p.cache, p.message, by simp [selectProperty, hindex], hindex, hentry,
        (sameElsewhere_setMember _ _ _ _).symm, fun entry v => ?_⟩
      rw [initializedProperty_writeProperty hf hsuits]
      exact turns_storedValue_iff hsuits (hexact.entry _ _ x hindex hiA hf rfl hx) hentry
  · exact ⟨_, _, h.select hexact f hx hi, rfl, fun _ => rfl,
      sameElsewhere_initializedProperty _ _ _, fun entry v => Iff.rfl⟩

/-- Writing a property and keeping an unknown field commute. -/
theorem writeProperty_keptMessage (m : Message) (x : WireField) (i : Nat) (f : FieldInfo)
    (v : Value) :
    writeProperty S (keptMessage keep m x) i f v = keptMessage keep (writeProperty S m i f v) x := by
  unfold keptMessage
  split <;> rfl

/-- An unknown field is kept beside the pending property. -/
theorem settles_keptMessage (h : p.Settles S t A M) :
    Draft.Settles S t A ⟨p.cache, keptMessage keep p.message x⟩ (keptMessage keep M x) := by
  cases h with
  | stored m => exact .stored _
  | cached hindex hi hfield hsuits hentry =>
    rw [← writeProperty_keptMessage]
    exact .cached hindex hi hfield hsuits hentry

/-- A property that took an occurrence in stands for the message with what came of it. -/
theorem settles_turned {c : Cache} {m : Message} {i : Nat} {f : FieldInfo}
    {entry : Option Message} {v : Value} (hc : c.index = some i) (hi : A i)
    (hf : (S.propertyOrdering t).fields[i]? = some f)
    (hentry : f.type.isMap = false → c.mapEntry = none) (hm : SameElsewhere i f m M)
    (h : Turns env S keep x f c.mapEntry c.propertyValue entry v) :
    (Draft.turned ⟨c, m⟩ i f entry v).Settles S t A (writeProperty S M i f v) := by
  have hsame := (sameElsewhere_placeProperty m i f v).trans hm
  rw [← writeProperty_of_sameElsewhere hsame]
  exact .cached hc hi hf h.suits fun hmap => (h.entry_eq hmap).trans (hentry hmap)

/-- What a field makes of a draft is what it makes of the message. -/
theorem Draft.Settles.absorbs (h : p.Settles S t A M) (hexact : p.Exact S t A (x :: zs))
    (hi : ∀ i, (S.propertyOrdering t).indexOfFieldNumber x.fieldNumber = some i → A i)
    (hdecodes : Decodes env S keep t [x] p p') :
    ∃ M', Absorbs env S keep t x M M' ∧ p'.Settles S t A M' := by
  have hx := hdecodes.complete x List.mem_cons_self
  cases hindex : (S.propertyOrdering t).indexOfFieldNumber x.fieldNumber with
  | none =>
    obtain rfl := (decodes_unknown_iff hx hindex).mp hdecodes
    exact ⟨_, .unknown M hx hindex, settles_keptMessage h⟩
  | some i =>
    obtain ⟨f, hf⟩ := exists_field_of_indexOfFieldNumber hindex
    obtain ⟨c, m, entry, v, hselect, hturns, rfl⟩ := (decodes_known_iff hx hindex hf).mp hdecodes
    obtain ⟨c', m', hselect', hc, hentry, hm, hiff⟩ :=
      @Draft.Settles.selected env S keep t A p M x zs h hexact i f hf hindex
    rw [hselect] at hselect'
    cases hselect'
    exact ⟨_, .known hx hindex hf ((hiff entry v).mp hturns),
      settles_turned hc (hi i hindex) hf hentry hm hturns⟩

/-- What a field makes of the message is what it makes of a draft. -/
theorem Draft.Settles.decodes (h : p.Settles S t A M) (hexact : p.Exact S t A (x :: zs))
    (hi : ∀ i, (S.propertyOrdering t).indexOfFieldNumber x.fieldNumber = some i → A i)
    {M' : Message} (habsorbs : Absorbs env S keep t x M M') :
    ∃ p', Decodes env S keep t [x] p p' ∧ p'.Settles S t A M' := by
  cases habsorbs with
  | unknown hx hindex =>
    exact ⟨_, (decodes_unknown_iff hx hindex).mpr rfl, settles_keptMessage h⟩
  | known hx hindex hf hturns =>
    obtain ⟨c, m, hselect, hc, hentry, hm, hiff⟩ :=
      @Draft.Settles.selected env S keep t A p M x zs h hexact _ _ hf hindex
    have hturns' := (hiff _ _).mpr hturns
    exact ⟨_, (decodes_known_iff hx hindex hf).mpr ⟨c, m, _, _, hselect, hturns', rfl⟩,
      settles_turned hc (hi _ hindex) hf hentry hm hturns'⟩

/-- A field this is not asked of finds the same property and message. -/
theorem Draft.Settles.decodes_other (h : p.Settles S t A M) (hexact : p.Exact S t A (x :: zs))
    (h' : q.Settles S t A M) (hexact' : q.Exact S t A (x :: zs)) {i : Nat}
    (hindex : (S.propertyOrdering t).indexOfFieldNumber x.fieldNumber = some i) (hi : ¬A i)
    (hdecodes : Decodes env S keep t [x] p p') : Decodes env S keep t [x] q p' := by
  have hx := hdecodes.complete x List.mem_cons_self
  obtain ⟨f, hf⟩ := exists_field_of_indexOfFieldNumber hindex
  have hother {r : Draft} (hr : r.Settles S t A M) : r.cache.index ≠ some i := by
    intro heq
    cases hr with
    | stored m => cases heq
    | cached hk hkA =>
      rw [heq] at hk
      cases hk
      exact hi hkA
  rw [decodes_known_iff hx hindex hf, h.select hexact f hindex (hother h)] at hdecodes
  rw [decodes_known_iff hx hindex hf, h'.select hexact' f hindex (hother h')]
  exact hdecodes

/-! ## Drafts that stand for the same message -/

variable (S t A) in
/-- Two drafts are the same, or stand for the same message. -/
def Draft.Alike (p q : Draft) : Prop :=
  p = q ∨ ∃ M, p.Settles S t A M ∧ q.Settles S t A M

variable (env S keep t A) in
/-- All drafts on the way through a sequence are exact in front of the rest of it. -/
def ExactAlong (xs : List WireField) (p : Draft) : Prop :=
  ∀ ys zs r, xs = ys ++ zs → Decodes env S keep t ys p r → r.Exact S t A zs

/-- What is exact all along is exact at the front. -/
theorem ExactAlong.head {xs : List WireField} (h : ExactAlong env S keep t A xs p) :
    p.Exact S t A xs :=
  h [] xs p rfl (.nil t p)

/-- What is exact all along is exact at the end. -/
theorem ExactAlong.last {xs : List WireField} (h : ExactAlong env S keep t A xs p)
    (hdecodes : Decodes env S keep t xs p q) : q.Exact S t A [] :=
  h xs [] q (List.append_nil xs).symm hdecodes

/-- What is exact all along is so behind the fields that were read. -/
theorem ExactAlong.tail {ys : List WireField} (xs : List WireField)
    (h : ExactAlong env S keep t A (xs ++ ys) p)
    (hdecodes : Decodes env S keep t xs p q) : ExactAlong env S keep t A ys q := by
  rintro zs zs' r rfl hr
  exact h (xs ++ zs) zs' r (by rw [List.append_assoc]) (hdecodes.append hr)

/-- A field keeps two drafts alike. -/
theorem Draft.Alike.decodes_one (h : p.Alike S t A q) (hp : p.Exact S t A (x :: zs))
    (hq : q.Exact S t A (x :: zs)) (hdecodes : Decodes env S keep t [x] p p') :
    ∃ q', Decodes env S keep t [x] q q' ∧ p'.Alike S t A q' := by
  rcases h with rfl | ⟨M, hM, hM'⟩
  · exact ⟨p', hdecodes, .inl rfl⟩
  · by_cases hA : ∀ i, (S.propertyOrdering t).indexOfFieldNumber x.fieldNumber = some i → A i
    · obtain ⟨M₁, habsorbs, hp'⟩ := hM.absorbs hp hA hdecodes
      obtain ⟨q', hq', hsettles⟩ := hM'.decodes hq hA habsorbs
      exact ⟨q', hq', .inr ⟨M₁, hp', hsettles⟩⟩
    · push Not at hA
      obtain ⟨i, hindex, hi⟩ := hA
      exact ⟨p', hM.decodes_other hp hM' hq hindex hi hdecodes, .inl rfl⟩

/-- So does a sequence of fields. -/
theorem Draft.Alike.decodes {xs : List WireField} (h : p.Alike S t A q)
    (hp : ExactAlong env S keep t A xs p) (hq : ExactAlong env S keep t A xs q)
    (hdecodes : Decodes env S keep t xs p p') :
    ∃ q', Decodes env S keep t xs q q' ∧ p'.Alike S t A q' := by
  induction xs generalizing p q with
  | nil =>
    obtain rfl := hdecodes.eq_of_nil
    exact ⟨q, .nil t q, h⟩
  | cons x xs ih =>
    obtain ⟨p₁, hx, hxs⟩ := hdecodes.of_cons
    obtain ⟨q₁, hx', halike⟩ := h.decodes_one hp.head hq.head hx
    obtain ⟨q', hxs', halike'⟩ := ih halike (hp.tail [x] hx) (hq.tail [x] hx') hxs
    exact ⟨q', hx'.append hxs', halike'⟩

/-- Drafts that are alike are written as the same message. -/
theorem Draft.Alike.store (h : p.Alike S t A q) (hp : p.Exact S t A []) (hq : q.Exact S t A [])
    {c : Cache} {m : Message} (hstore : storeCachedValue S t p.cache p.message = (c, m, true)) :
    ∃ c', storeCachedValue S t q.cache q.message = (c', m, true) := by
  rcases h with rfl | ⟨M, hM, hM'⟩
  · exact ⟨c, hstore⟩
  · rw [hM.store hp] at hstore
    cases hstore
    exact ⟨{}, hM'.store hq⟩

/-! ## Fields of different members -/

/-- Writing a property leaves the other members. -/
theorem member_writeProperty_of_ne {i : Nat} {f : FieldInfo} {y : Member} (hy : y ≠ f.memberAt i)
    (m : Message) (v : Value) : (writeProperty S m i f v).member y = m.member y :=
  Message.member_setMember_of_ne m _ hy

/-- A property only depends on its member. -/
theorem initializedProperty_of_member {m m' : Message} {i : Nat} {f : FieldInfo}
    (h : m.member (f.memberAt i) = m'.member (f.memberAt i)) :
    (S.initializedProperty m i f).2 = (S.initializedProperty m' i f).2 := by
  unfold FieldInfo.memberAt at h
  unfold Schema.initializedProperty
  cases hpresence : f.presence with
  | oneof j =>
    simp only [hpresence] at h
    have hstate : m.oneofState j = m'.oneofState j := by simp only [Message.oneofState, h]
    cases f.type with
    | message t' => simp only [hstate]
    | _ =>
      simp only [hstate]
      split <;> rfl
  | _ =>
    simp only [hpresence] at h
    cases f.type <;> simp only [h]

/-- Properties of different members may be written in either order. -/
theorem writeProperty_comm {i k : Nat} {f g : FieldInfo} (h : f.memberAt i ≠ g.memberAt k)
    (m : Message) (v w : Value) :
    writeProperty S (writeProperty S m i f v) k g w =
      writeProperty S (writeProperty S m k g w) i f v := by
  refine Message.ext_member ?_ rfl
  exact Function.update_comm h _ _ m.member

/-- Two fields of different members may come in either order. -/
theorem Absorbs.exchange {y : WireField} {M M₁ M₂ : Message} {i k : Nat} {f g : FieldInfo}
    (hx : Absorbs env S keep t x M M₁) (hy : Absorbs env S keep t y M₁ M₂)
    (hi : (S.propertyOrdering t).indexOfFieldNumber x.fieldNumber = some i)
    (hk : (S.propertyOrdering t).indexOfFieldNumber y.fieldNumber = some k)
    (hf : (S.propertyOrdering t).fields[i]? = some f)
    (hg : (S.propertyOrdering t).fields[k]? = some g) (hmember : f.memberAt i ≠ g.memberAt k) :
    ∃ N, Absorbs env S keep t y M N ∧ Absorbs env S keep t x N M₂ := by
  cases hx with
  | unknown hx hindex =>
    rw [hi] at hindex
    cases hindex
  | known hx hindex hfield hturns =>
    rw [hi] at hindex
    cases hindex
    rw [hf] at hfield
    cases hfield
    cases hy with
    | unknown hy hindex' =>
      rw [hk] at hindex'
      cases hindex'
    | known hy hindex' hfield' hturns' =>
      rw [hk] at hindex'
      cases hindex'
      rw [hg] at hfield'
      cases hfield'
      rw [initializedProperty_of_member (member_writeProperty_of_ne hmember.symm M _)] at hturns'
      rename_i entry₂ w
      rw [← initializedProperty_of_member (member_writeProperty_of_ne (f := g) (i := k) hmember M w)]
        at hturns
      rw [writeProperty_comm hmember]
      exact ⟨_, .known hy hk hg hturns', .known hx hi hf hturns⟩

end

end QtGrpc.Protobuf.Binary
