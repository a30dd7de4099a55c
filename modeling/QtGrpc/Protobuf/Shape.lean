import QtGrpc.Protobuf.DeserializerBase
import Mathlib.Data.List.Nodup

/-!
# Well-formed messages

A member of a generated class holds a value of the type of its field. This is true of a new
message and kept by the accessors, so that a decoder can store any property it has read, and finds
a property of the right kind for the next field.
-/

namespace QtGrpc.Protobuf

/-- A value a property of this type may have. -/
def Value.Suits : PropertyType → Value → Prop
  | .list k, v => ∃ vs, v = .scalars k vs
  | .enumList _, v => ∃ e vs, v = .enumerators e vs
  | .messageList _, v => ∃ t ms, v = .messages t ms
  | .hash _ _, v => ∃ entries, v = .hash entries
  | .custom _ _, v => ∃ h content, v = .custom h content
  | .message t, v => ∃ m, v = .message t m
  | .enum _, v => (∃ e x, v = .enumerator e x) ∨ ∃ x, v = .scalar ⟨.int64, x⟩
  | .scalar _, v => ∃ s, v = .scalar s

/-- What a member of its own may hold for a field. -/
def FieldInfo.Stored (f : FieldInfo) (v : Value) : Prop :=
  v.Suits f.type ∨ v = .null ∧ (f.type.isPureMessage = true ∨ f.presence = .optional)

/-- A member holds a value, maybe in a oneof. -/
def Value.Holds (content v : Value) : Prop := content = v ∨ ∃ n, content = .oneof n v

/-- Every member holds a value of its field, and so do the sub-messages. -/
inductive WellFormed (S : Schema) : MessageType → Message → Prop where
  | intro {t : MessageType} {m : Message}
      (own : ∀ (i : Nat) (f : FieldInfo), (S.propertyOrdering t).fields[i]? = some f →
        f.memberAt i = .field i → f.Stored (m.member (.field i)))
      (oneof : ∀ (i j : Nat) (f : FieldInfo), (S.propertyOrdering t).fields[i]? = some f →
        f.presence = .oneof j → holdsField (m.oneofState j) f.fieldNumber = true →
          (m.oneofState j).2.Suits f.type)
      (subs : ∀ (x : Member) (t' : Nat) (sub : Message), (m.member x).Holds (.message t' sub) →
        WellFormed S (.named t') sub) :
      WellFormed S t m

/-- What is asked of one member. -/
structure FormedAt (S : Schema) (t : MessageType) (m : Message) (x : Member) : Prop where
  own : ∀ (i : Nat) (f : FieldInfo), x = .field i → (S.propertyOrdering t).fields[i]? = some f →
    f.memberAt i = .field i → f.Stored (m.member (.field i))
  oneof : ∀ (i j : Nat) (f : FieldInfo), x = .oneof j →
    (S.propertyOrdering t).fields[i]? = some f → f.presence = .oneof j →
      holdsField (m.oneofState j) f.fieldNumber = true → (m.oneofState j).2.Suits f.type
  subs : ∀ (t' : Nat) (sub : Message), (m.member x).Holds (.message t' sub) →
    WellFormed S (.named t') sub

/-- A message is well formed exactly when it is formed at each of its members. -/
theorem wellFormed_iff {S : Schema} {t : MessageType} {m : Message} :
    WellFormed S t m ↔ ∀ x, FormedAt S t m x := by
  constructor
  · rintro ⟨own, oneof, subs⟩ x
    exact ⟨fun i f _ => own i f, fun i j f _ => oneof i j f, subs x⟩
  · intro h
    exact ⟨fun i f => (h (.field i)).own i f rfl, fun i j f => (h (.oneof j)).oneof i j f rfl,
      fun x => (h x).subs⟩

/-- Only the content of the member itself counts. -/
theorem FormedAt.of_eq {S : Schema} {t : MessageType} {m m' : Message} {x : Member}
    (h : FormedAt S t m x) (hmember : m'.member x = m.member x) : FormedAt S t m' x := by
  refine ⟨fun i f hx => ?_, fun i j f hx => ?_, ?_⟩
  · subst hx
    rw [hmember]
    exact h.own i f rfl
  · subst hx
    rw [show m'.oneofState j = m.oneofState j by simp only [Message.oneofState, hmember]]
    exact h.oneof i j f rfl
  · rw [hmember]
    exact h.subs

/-- The message a property consists of is well formed, if it is one. -/
def Value.SubFormed (S : Schema) (v : Value) : Prop :=
  ∀ (t' : Nat) (sub : Message), v = .message t' sub → WellFormed S (.named t') sub

variable {S : Schema} {t : MessageType} {m : Message}

/-- The initial value of a type that is no message suits it. -/
theorem initialValue_suits (type : PropertyType) (h : type.isPureMessage = false) :
    (type.initialValue S).Suits type := by
  cases type with
  | scalar k => exact ⟨_, rfl⟩
  | list k => exact ⟨_, rfl⟩
  | enum e => exact .inl ⟨_, _, rfl⟩
  | enumList e => exact ⟨_, _, rfl⟩
  | message t => cases h
  | messageList t => exact ⟨_, _, rfl⟩
  | hash key value => exact ⟨_, rfl⟩
  | custom h isList => exact ⟨_, _, rfl⟩

/-- The default of a field outside the oneofs may be stored in it. -/
theorem storedDefault_stored (f : FieldInfo) (hown : ∀ j, f.presence ≠ .oneof j) :
    f.Stored (f.storedDefault S) := by
  unfold FieldInfo.storedDefault
  split
  · rename_i hoptional
    exact .inr ⟨rfl, .inr hoptional⟩
  · rename_i j honeof
    exact absurd honeof (hown j)
  · rename_i e htype
    exact .inl (by rw [htype]; exact .inl ⟨_, _, rfl⟩)
  · cases hmessage : f.type.isPureMessage with
    | false => exact .inl (initialValue_suits f.type hmessage)
    | true =>
      refine .inr ⟨?_, .inl hmessage⟩
      cases htype : f.type <;> simp_all [PropertyType.isPureMessage, PropertyType.initialValue]

/-- No default holds a message. -/
theorem storedDefault_not_holds (f : FieldInfo) (t' : Nat) (sub : Message) :
    ¬ (f.storedDefault S).Holds (.message t' sub) := by
  unfold FieldInfo.storedDefault
  split
  · simp [Value.Holds]
  · simp [Value.Holds]
  · simp [Value.Holds]
  · cases f.type <;> simp [PropertyType.initialValue, Value.Holds]

/-- A new message is well formed. -/
theorem defaultMessage_wellFormed (S : Schema) (t : MessageType) :
    WellFormed S t (S.defaultMessage t) := by
  refine ⟨fun i f hf hown => ?_, fun i j f _ _ hholds => ?_, fun x t' sub hholds => ?_⟩
  · have hmember : (S.defaultMessage t).member (.field i) = f.storedDefault S := by
      simp [Schema.defaultMessage, Message.member, hf]
    rw [hmember]
    refine storedDefault_stored f fun j hj => ?_
    simp [FieldInfo.memberAt, hj] at hown
  · simp [Schema.defaultMessage, Message.oneofState, Message.member, holdsField, Value.isNull]
      at hholds
  · have hnone : ¬ ((S.defaultMessage t).member x).Holds (.message t' sub) := by
      cases x with
      | field i =>
        have hmember : (S.defaultMessage t).member (.field i) =
            ((S.propertyOrdering t).fields[i]?.map (·.storedDefault S)).getD .null := rfl
        rw [hmember]
        cases (S.propertyOrdering t).fields[i]? with
        | none => simp [Value.Holds]
        | some f => exact storedDefault_not_holds f t' sub
      | oneof j => simp [Schema.defaultMessage, Message.member, Value.Holds]
    exact absurd hholds hnone

/-- The property of a field is one of its type. -/
structure IsProperty (S : Schema) (f : FieldInfo) (v : Value) : Prop where
  suits : v.Suits f.type
  sub : v.SubFormed S

/-- A value that suits a type is not null. -/
theorem Value.Suits.isNull {type : PropertyType} {v : Value} (h : v.Suits type) :
    v.isNull = false := by
  cases type <;> simp only [Value.Suits] at h
  case enum => rcases h with ⟨e, x, rfl⟩ | ⟨x, rfl⟩ <;> rfl
  all_goals
    obtain ⟨_, h⟩ := h
    first
    | (subst h; rfl)
    | (obtain ⟨_, rfl⟩ := h; rfl)

/-- A value of a type that is no message holds well-formed messages only. -/
theorem Value.Suits.subFormed {type : PropertyType} {v : Value} (h : v.Suits type)
    (htype : type.isPureMessage = false) : v.SubFormed S := by
  rintro t' sub rfl
  cases type <;> simp [Value.Suits, PropertyType.isPureMessage] at h htype

/-- The property of a type that is no message. -/
theorem isProperty_of_suits {f : FieldInfo} {v : Value} (h : v.Suits f.type)
    (htype : f.type.isPureMessage = false) : IsProperty S f v :=
  ⟨h, h.subFormed htype⟩

/-- The message that a pointer leads to is well formed, also where it is made for it. -/
theorem ensureMessage_wellFormed (t' : Nat) (v : Value)
    (h : ∀ sub, v = .message t' sub → WellFormed S (.named t') sub) :
    WellFormed S (.named t') (S.ensureMessage t' v) := by
  unfold Schema.ensureMessage
  split
  · split
    · rename_i t'' m ht
      subst ht
      exact h m rfl
    · exact defaultMessage_wellFormed S _
  · exact defaultMessage_wellFormed S _

/-- A well-formed message is a property of its field. -/
theorem isProperty_message {f : FieldInfo} {t' : Nat} (htype : f.type = .message t') {sub : Message}
    (h : WellFormed S (.named t') sub) : IsProperty S f (.message t' sub) := by
  refine ⟨by rw [htype]; exact ⟨sub, rfl⟩, ?_⟩
  rintro t'' sub' heq
  cases heq
  exact h

/-! ## Reading and writing a property -/

/-- A oneof with a value is what it was set to. -/
theorem Message.member_oneof {j : Nat} (h : (m.oneofState j).2 ≠ .null) :
    m.member (.oneof j) = .oneof (m.oneofState j).1 (m.oneofState j).2 := by
  unfold Message.oneofState at h ⊢
  split
  · assumption
  · rename_i hother
    split at h
    · exact absurd ‹_› (hother _ _)
    · exact absurd rfl h

/-- A decoder finds a property of the type of the field, and touches only its member. -/
theorem initializedProperty_spec {i : Nat} {f : FieldInfo}
    (hf : (S.propertyOrdering t).fields[i]? = some f) (h : WellFormed S t m) :
    IsProperty S f (S.initializedProperty m i f).2 ∧
      ∀ x ≠ f.memberAt i, (S.initializedProperty m i f).1.member x = m.member x := by
  obtain ⟨own, oneof, subs⟩ := h
  unfold Schema.initializedProperty
  split
  · rename_i j t' hpresence htype
    refine ⟨isProperty_message htype (ensureMessage_wellFormed t' _ fun sub hsub => ?_),
      fun x hx => ?_⟩
    · refine subs (.oneof j) t' sub ?_
      unfold Message.oneofState at hsub
      split at hsub
      · rename_i n v hmember
        exact .inr ⟨n, by rw [hmember]; exact congrArg (Value.oneof n) hsub⟩
      · cases hsub
    · simp only [FieldInfo.memberAt, hpresence] at hx
      exact Message.member_setMember_of_ne m _ hx
  · rename_i j hpresence hmessage
    have hpure : f.type.isPureMessage = false := by
      cases htype : f.type <;> simp_all [PropertyType.isPureMessage]
    split
    · rename_i hholds
      exact ⟨isProperty_of_suits (oneof i j f hf hpresence hholds) hpure, fun _ _ => rfl⟩
    · exact ⟨isProperty_of_suits (initialValue_suits f.type hpure) hpure, fun _ _ => rfl⟩
  · rename_i t' htype honeof
    have hown : f.memberAt i = .field i := by
      cases hpresence : f.presence <;> simp_all [FieldInfo.memberAt]
    refine ⟨isProperty_message htype (ensureMessage_wellFormed t' _ fun sub hsub => ?_),
      fun x hx => ?_⟩
    · exact subs (.field i) t' sub (.inl hsub)
    · rw [hown] at hx
      exact Message.member_setMember_of_ne m _ hx
  · rename_i hpresence hmessage
    have hpure : f.type.isPureMessage = false := by
      cases htype : f.type <;> simp_all [PropertyType.isPureMessage]
    refine ⟨isProperty_of_suits ?_ hpure, fun _ _ => rfl⟩
    simp only
    split
    · exact initialValue_suits f.type hpure
    · rename_i hnull
      rcases own i f hf (by simp [FieldInfo.memberAt, hpresence]) with hsuits | ⟨hvalue, -⟩
      · exact hsuits
      · rw [hvalue] at hnull
        exact absurd rfl hnull
  · rename_i hoptional honeof' hmessage honeof
    have hpure : f.type.isPureMessage = false := by
      cases htype : f.type <;> simp_all [PropertyType.isPureMessage]
    have hown : f.memberAt i = .field i := by
      cases hpresence : f.presence <;> simp_all [FieldInfo.memberAt]
    refine ⟨isProperty_of_suits ?_ hpure, fun _ _ => rfl⟩
    rcases own i f hf hown with hsuits | ⟨-, hpure' | hoptional'⟩
    · exact hsuits
    · rw [hpure] at hpure'
      cases hpure'
    · simp_all

/-- A property is converted to one of the same type. -/
theorem convert_isProperty {f : FieldInfo} {v : Value} (h : IsProperty S f v) :
    ∃ v', S.convert f.type v = some v' ∧ IsProperty S f v' := by
  unfold Schema.convert
  split
  · rename_i e x htype
    refine ⟨_, rfl, isProperty_of_suits ?_ (by rw [htype]; rfl)⟩
    rw [htype]
    exact .inl ⟨_, _, rfl⟩
  · rename_i e key htype
    have hsuits := h.suits
    rw [htype] at hsuits
    rcases hsuits with ⟨e, x, heq⟩ | ⟨x, heq⟩
    · cases heq
    · cases heq
  · rename_i e keys htype
    have hsuits := h.suits
    rw [htype] at hsuits
    obtain ⟨e, vs, heq⟩ := hsuits
    cases heq
  · exact ⟨_, rfl, h⟩

/-- The same scalar suits the same types. -/
theorem sameScalar_suits {type : PropertyType} {old v : Value} (hsame : old.sameScalar v = true)
    (h : v.Suits type) : old.Suits type := by
  unfold Value.sameScalar at hsame
  split at hsame
  · rename_i a b
    cases type with
    | scalar k => exact ⟨_, rfl⟩
    | enum e =>
      rcases h with ⟨e', x, heq⟩ | ⟨x, heq⟩
      · cases heq
      · cases heq
        obtain ⟨k, x'⟩ := a
        have hk : k = .int64 := by
          by_contra hne
          simp [Scalar.isEqual, hne] at hsame
        subst hk
        exact .inr ⟨x', rfl⟩
    | _ => simp [Value.Suits] at h
  · rename_i e a e' b
    cases type with
    | enum e => exact .inl ⟨_, _, rfl⟩
    | _ => simp [Value.Suits] at h
  · cases hsame

/-- A value that is the same scalar holds no message. -/
theorem sameScalar_not_holds {old v : Value} (hsame : old.sameScalar v = true) (t' : Nat)
    (sub : Message) : ¬ old.Holds (.message t' sub) := by
  rintro (rfl | ⟨n, rfl⟩) <;> cases hsame

/-- The fields of a type differ in their numbers. -/
theorem fieldNumber_injective {i i' : Nat} {f f' : FieldInfo}
    (hf : (S.propertyOrdering t).fields[i]? = some f)
    (hf' : (S.propertyOrdering t).fields[i']? = some f')
    (h : f.fieldNumber = f'.fieldNumber) : f = f' := by
  exact List.inj_on_of_nodup_map (S.propertyOrdering t).numbers_nodup (List.mem_of_getElem? hf)
    (List.mem_of_getElem? hf') h

/-- What is asked of the member of a field once a property of its type has been written to it. -/
theorem formedAt_setMember {i : Nat} {f : FieldInfo} {v : Value}
    (hf : (S.propertyOrdering t).fields[i]? = some f) (hv : IsProperty S f v) :
    FormedAt S t (m.setMember (.field i) v) (.field i) := by
  refine ⟨fun i' f' hx hf' _ => ?_, fun i' j f' hx => (by cases hx), fun t' sub hholds => ?_⟩
  · cases hx
    rw [hf] at hf'
    cases hf'
    rw [Message.member_setMember_self]
    exact .inl hv.suits
  · rw [Message.member_setMember_self] at hholds
    rcases hholds with rfl | ⟨n, rfl⟩
    · exact hv.sub t' sub rfl
    · have hsuits := hv.suits
      cases htype : f.type <;> simp [htype, Value.Suits] at hsuits

/-- A oneof in which a field's property is stored is well formed there. -/
theorem formedAt_setOneof {i j : Nat} {f : FieldInfo} {v : Value}
    (hf : (S.propertyOrdering t).fields[i]? = some f) (hv : IsProperty S f v) :
    FormedAt S t (m.setMember (.oneof j) (.oneof f.fieldNumber v)) (.oneof j) := by
  have hstate : (m.setMember (.oneof j) (.oneof f.fieldNumber v)).oneofState j =
      (f.fieldNumber, v) := by
    simp [Message.oneofState]
  refine ⟨fun i' f' hx => (by cases hx), fun i' j' f' hx hf' _ hholds => ?_,
    fun t' sub hholds => ?_⟩
  · cases hx
    rw [hstate] at hholds ⊢
    have hnumber : f.fieldNumber = f'.fieldNumber := by
      simp [holdsField] at hholds
      exact hholds.1.1
    rw [← fieldNumber_injective hf hf' hnumber]
    exact hv.suits
  · rw [Message.member_setMember_self] at hholds
    rcases hholds with heq | ⟨n, heq⟩
    · cases heq
    · cases heq
      exact hv.sub t' sub rfl

/-- A value that is equal to a property of the field is one as well. -/
theorem isEqual_isProperty {f : FieldInfo} {old v : Value} (hequal : S.isEqual old v = true)
    (hv : IsProperty S f v) : IsProperty S f old := by
  unfold Schema.isEqual at hequal
  split at hequal
  · rename_i h content h' content'
    have hsuits := hv.suits
    cases htype : f.type with
    | custom k isList =>
      exact isProperty_of_suits (by rw [htype]; exact ⟨_, _, rfl⟩) (by rw [htype]; rfl)
    | _ => simp [htype, Value.Suits] at hsuits
  · exact ⟨sameScalar_suits hequal hv.suits,
      fun t' sub heq => absurd (.inl heq) (sameScalar_not_holds hequal t' sub)⟩

/-- A setter leaves a value of the type of the field. -/
theorem assigned_isProperty {f : FieldInfo} {old v : Value} (hv : IsProperty S f v) :
    IsProperty S f (S.assigned f.type old v) := by
  unfold Schema.assigned
  split
  · rename_i k vs k' vs' htype
    split
    · rename_i hsame
      have hsuits := hv.suits
      rw [htype] at hsuits
      obtain ⟨ws, heq⟩ := hsuits
      cases heq
      obtain ⟨rfl, -⟩ := hsame
      exact isProperty_of_suits (by rw [htype]; exact ⟨_, rfl⟩) (by rw [htype]; rfl)
    · exact hv
  · rename_i htype
    exact isProperty_of_suits (by rw [htype]; exact ⟨_, _, rfl⟩) (by rw [htype]; rfl)
  · rename_i htype
    exact isProperty_of_suits (by rw [htype]; exact ⟨_, rfl⟩) (by rw [htype]; rfl)
  · rename_i htype
    exact isProperty_of_suits (by rw [htype]; exact ⟨_, rfl⟩) (by rw [htype]; rfl)
  · split
    · exact isEqual_isProperty ‹_› hv
    · exact hv
  · exact hv

/-- Storing what is there already changes nothing. -/
theorem Message.setMember_eq_self {x : Member} {content : Value} (h : content = m.member x) :
    m.setMember x content = m := by
  cases m with
  | mk member unknownEntries =>
    rw [h]
    exact congrArg (Message.mk · unknownEntries) (Function.update_eq_self x member)

/-- A setter that skips the assignment leaves what it would have assigned, as far as the shape of
the message goes. -/
theorem setMessageProperty_setMember {i : Nat} {f : FieldInfo} {v : Value}
    (hf : (S.propertyOrdering t).fields[i]? = some f) (hv : IsProperty S f v) :
    ∃ content, S.setMessageProperty m i f v = (m.setMember (f.memberAt i) content, true) ∧
      FormedAt S t (m.setMember (f.memberAt i) content) (f.memberAt i) := by
  obtain ⟨v', hconvert, hv'⟩ := convert_isProperty hv
  unfold Schema.setMessageProperty
  rw [hconvert]
  simp only
  split
  · rename_i j hpresence
    rw [show f.memberAt i = .oneof j by simp [FieldInfo.memberAt, hpresence]]
    split
    · rename_i hskip
      obtain ⟨hnumber, hsame⟩ := hskip
      have hcontent : .oneof f.fieldNumber (m.oneofState j).2 = m.member (.oneof j) := by
        rw [← hnumber]
        refine (Message.member_oneof fun hnull => ?_).symm
        rw [hnull] at hsame
        cases hsame
      refine ⟨_, ?_, formedAt_setOneof (i := i) hf (isEqual_isProperty hsame hv')⟩
      rw [Message.setMember_eq_self hcontent]
    · exact ⟨_, rfl, formedAt_setOneof (i := i) hf hv'⟩
  case h_2 hpresence | h_3 hpresence =>
    rw [show f.memberAt i = .field i by simp [FieldInfo.memberAt, hpresence]]
    split
    · rename_i hsame
      refine ⟨_, ?_, formedAt_setMember hf (isEqual_isProperty hsame hv')⟩
      rw [Message.setMember_eq_self rfl]
    · exact ⟨_, rfl, formedAt_setMember hf hv'⟩
  · rename_i honeof _ _
    have hmember : f.memberAt i = .field i := by
      cases hpresence : f.presence <;> simp_all [FieldInfo.memberAt]
    rw [hmember]
    exact ⟨_, rfl, formedAt_setMember hf (assigned_isProperty hv')⟩

/-- A property can be written, and only its member changes. -/
theorem setMessageProperty_spec {i : Nat} {f : FieldInfo} {v : Value}
    (hf : (S.propertyOrdering t).fields[i]? = some f)
    (h : ∀ x ≠ f.memberAt i, FormedAt S t m x) (hv : IsProperty S f v) :
    ∃ m', S.setMessageProperty m i f v = (m', true) ∧ WellFormed S t m' ∧
      ∀ x ≠ f.memberAt i, m'.member x = m.member x := by
  obtain ⟨content, heq, hself⟩ := setMessageProperty_setMember (m := m) hf hv
  refine ⟨_, heq, ?_, fun x hx => Message.member_setMember_of_ne m _ hx⟩
  rw [wellFormed_iff]
  intro x
  by_cases hx : x = f.memberAt i
  · rw [hx]
    exact hself
  · exact (h x hx).of_eq (Message.member_setMember_of_ne m _ hx)

/-! ## The cached property -/

/-- Between two fields the message is well formed, except that the property in the cache is not
written yet. -/
inductive Pending (S : Schema) (t : MessageType) : Cache → Message → Prop where
  | stored {c : Cache} {m : Message} (hindex : c.index = none) (h : WellFormed S t m) :
      Pending S t c m
  | cached {c : Cache} {m : Message} {i : Nat} {f : FieldInfo} (hindex : c.index = some i)
      (hf : (S.propertyOrdering t).fields[i]? = some f) (hv : IsProperty S f c.propertyValue)
      (h : ∀ x ≠ f.memberAt i, FormedAt S t m x) : Pending S t c m

/-- Only the members count. -/
theorem Pending.of_member_eq {cache : Cache} {m' : Message} (h : Pending S t cache m)
    (hmember : m'.member = m.member) : Pending S t cache m' := by
  cases h with
  | stored hindex h =>
    refine .stored hindex (wellFormed_iff.mpr fun y => ?_)
    exact (wellFormed_iff.mp h y).of_eq (by rw [hmember])
  | cached hindex hf hv h =>
    exact .cached hindex hf hv fun y hy => (h y hy).of_eq (by rw [hmember])

/-- The content of a member of its own, which may still be in the cache. -/
def Cache.content (cache : Cache) (m : Message) (i : Nat) : Value :=
  if cache.index = some i then cache.propertyValue else m.member (.field i)

/-- What a member of its own holds when the cached property is written. -/
def Cache.stored (S : Schema) (cache : Cache) (m : Message) (i : Nat) (f : FieldInfo) : Value :=
  if cache.index = some i then S.assigned f.type (m.member (.field i)) cache.propertyValue
  else m.member (.field i)

/-- Lists of numbers and enumerators have neither a presence nor a conversion. -/
theorem FieldInfo.presence_of_isPackable {f : FieldInfo} (h : f.type.isPackable = true)
    (hfits : f.presenceFits = true) : f.presence = .implicit := by
  unfold FieldInfo.presenceFits at hfits
  cases htype : f.type <;> cases hpresence : f.presence <;>
    simp_all [PropertyType.isPackable]

/-- Another field's member is not the one behind this field. -/
theorem FieldInfo.field_ne_memberAt (f : FieldInfo) {i k : Nat} (h : i ≠ k) :
    Member.field k ≠ f.memberAt i := by
  unfold FieldInfo.memberAt
  split <;> simp [Ne.symm h]

section

variable {i : Nat} {f : FieldInfo} {cache : Cache}

/-- The property of a list that can be packed is its member. -/
theorem initializedProperty_of_isPackable (hpackable : f.type.isPackable = true)
    (hf : (S.propertyOrdering t).fields[i]? = some f) :
    S.initializedProperty m i f = (m, m.member (.field i)) := by
  have hpresence := f.presence_of_isPackable hpackable
    ((S.propertyOrdering t).presence_fits f (List.mem_of_getElem? hf))
  unfold Schema.initializedProperty
  cases htype : f.type <;> simp_all [PropertyType.isPackable]

/-- The setter of a list that can be packed stores it in its member. -/
theorem setMessageProperty_of_isPackable (hpackable : f.type.isPackable = true)
    (hf : (S.propertyOrdering t).fields[i]? = some f) {v : Value} (hv : IsProperty S f v) :
    S.setMessageProperty m i f v =
      (m.setMember (.field i) (S.assigned f.type (m.member (.field i)) v), true) := by
  have hpresence := f.presence_of_isPackable hpackable
    ((S.propertyOrdering t).presence_fits f (List.mem_of_getElem? hf))
  have hconvert : S.convert f.type v = some v := by
    have hsuits := hv.suits
    cases htype : f.type <;> simp [htype, PropertyType.isPackable, Value.Suits] at hpackable hsuits
    · rfl
    · obtain ⟨e, vs, rfl⟩ := hsuits
      rfl
  simp only [Schema.setMessageProperty, hconvert, hpresence]

/-- The cached property is written, and the message is well formed. -/
theorem storeCachedValue_spec (h : Pending S t cache m) :
    ∃ cache' m', storeCachedValue S t cache m = (cache', m', true) ∧ cache'.index = none ∧
      WellFormed S t m' ∧
      ∀ i f, (S.propertyOrdering t).fields[i]? = some f → f.type.isPackable = true →
        m'.member (.field i) = cache.stored S m i f := by
  cases h with
  | stored hindex h =>
    refine ⟨cache, m, ?_, hindex, h, fun i f _ _ => ?_⟩
    · simp only [storeCachedValue, hindex]
    · simp [Cache.stored, hindex]
  | cached hindex hf hv h =>
    rename_i k f
    obtain ⟨m', hset, hformed, hother⟩ := setMessageProperty_spec hf h hv
    refine ⟨{}, m', ?_, rfl, hformed, fun i g hg hpackable => ?_⟩
    · simp only [storeCachedValue, hindex, hv.suits.isNull, hf, hset, Bool.false_eq_true, if_false]
    · by_cases hi : k = i
      · subst hi
        rw [hf] at hg
        cases hg
        rw [setMessageProperty_of_isPackable hpackable hf hv] at hset
        cases hset
        simp [Cache.stored, hindex]
      · rw [hother _ (FieldInfo.field_ne_memberAt f hi)]
        simp [Cache.stored, hindex, hi]

/-- The property of a field comes into the cache. Unless it was there before, the lists hold what was
written for them. -/
theorem selectProperty_spec (h : Pending S t cache m)
    (hf : (S.propertyOrdering t).fields[i]? = some f) :
    ∃ c m', selectProperty S t i f cache m = (c, m', true) ∧ c.index = some i ∧
      IsProperty S f c.propertyValue ∧ (∀ x ≠ f.memberAt i, FormedAt S t m' x) ∧
      (c = cache ∧ m' = m ∨
        cache.index ≠ some i ∧
        ∀ k g, (S.propertyOrdering t).fields[k]? = some g → g.type.isPackable = true →
          m'.member (.field k) = cache.stored S m k g ∧ c.content m' k = cache.stored S m k g) := by
  unfold selectProperty
  by_cases hi : cache.index = some i
  · rw [if_pos hi]
    cases h with
    | stored hindex h => simp [hindex] at hi
    | cached hindex hf' hv h =>
      rw [hindex] at hi
      cases hi
      rw [hf] at hf'
      cases hf'
      exact ⟨cache, m, rfl, hindex, hv, h, .inl ⟨rfl, rfl⟩⟩
  · rw [if_neg hi]
    obtain ⟨cache', m', hstore, -, hformed, hcontent⟩ := storeCachedValue_spec h
    obtain ⟨hproperty, hother⟩ := initializedProperty_spec hf hformed
    rw [hstore]
    refine ⟨{ cache' with
      index := some i
      propertyValue := (S.initializedProperty m' i f).2 }, (S.initializedProperty m' i f).1, rfl,
      rfl, hproperty, fun x hx => ?_, .inr ⟨hi, fun k g hg hpackable => ?_⟩⟩
    · exact (wellFormed_iff.mp hformed x).of_eq (hother x hx)
    · rw [← hcontent k g hg hpackable]
      by_cases hk : i = k
      · subst hk
        rw [hf] at hg
        cases hg
        simp [Cache.content, initializedProperty_of_isPackable hpackable hf]
      · rw [← hother _ (FieldInfo.field_ne_memberAt f hk)]
        simp [Cache.content, hk]

/-- The entry a map iterator hands out is well formed, whatever the one before was. -/
theorem addNext_wellFormed (key : ScalarKind) (value : MapValue) (entry : Option Message) :
    WellFormed S (.mapEntry key value) (S.addNext key value entry) := by
  have hdefault := defaultMessage_wellFormed S (.mapEntry key value)
  unfold Schema.addNext
  simp only
  split
  · rename_i k old _
    split
    · rw [wellFormed_iff]
      intro x
      by_cases hx : x = .field 1
      · subst hx
        exact formedAt_setMember (i := 1) (f := ⟨2, "value", .scalar k, .mapEntry, true⟩) rfl
          (isProperty_of_suits ⟨old, rfl⟩ rfl)
      · exact (wellFormed_iff.mp hdefault x).of_eq (Message.member_setMember_of_ne _ _ hx)
    · exact hdefault
  · exact hdefault

end

end QtGrpc.Protobuf
