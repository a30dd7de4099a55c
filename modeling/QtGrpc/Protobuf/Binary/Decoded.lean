import QtGrpc.Protobuf.Binary.Retention

/-!
# What was decoded can be encoded

Whatever fields a message was decoded from, its members hold values of the types of their fields, the
messages in them do so in turn, and what they keep of unknown fields is complete. So it is written
and found again: decoding, encoding and decoding once more is the same as decoding once.
-/

namespace QtGrpc.Protobuf.Binary

open Grouping

/-- A message of a type within a value. -/
inductive Has : Value → Nat → Message → Prop where
  | message (t : Nat) (m : Message) : Has (.message t m) t m
  | element {t : Nat} {ms : List Message} {m : Message} (h : m ∈ ms) : Has (.messages t ms) t m
  | entry {entries : List (Scalar × Value)} {e : Scalar × Value} {t : Nat} {m : Message}
      (he : e ∈ entries) (h : Has e.2 t m) : Has (.hash entries) t m
  | oneof {n t : Nat} {v : Value} {m : Message} (h : Has v t m) : Has (.oneof n v) t m

section

variable (env : Environment) (S : Schema) (keep : Bool)

/-- What a member of its own may hold for a field. -/
def HoldsOwn (f : FieldInfo) (v : Value) : Prop :=
  v.IsOf f.type ∨ v = .null ∧ (f.type.isPureMessage = true ∨ f.presence = .optional)

/-- The entries a message keeps are complete fields of unknown numbers. -/
def KeepsComplete (t : MessageType) (m : Message) : Prop :=
  ∃ us : List WireField, Groups (us.map numbered) m.unknownEntries ∧ ∀ x ∈ us, x.Complete env ∧
    (S.propertyOrdering t).indexOfFieldNumber x.fieldNumber = none ∧ keep = true

/-- Every member holds a value of the type of its field, and so do the messages within. -/
inductive Exact : MessageType → Message → Prop where
  | intro {t : MessageType} {m : Message}
      (own : ∀ (i : Nat) (f : FieldInfo), (S.propertyOrdering t).fields[i]? = some f →
        f.memberAt i = .field i → HoldsOwn f (m.member (.field i)))
      (oneof : ∀ (i j : Nat) (f : FieldInfo), (S.propertyOrdering t).fields[i]? = some f →
        f.presence = .oneof j → holdsField (m.oneofState j) f.fieldNumber = true →
          (m.oneofState j).2.IsOf f.type)
      (subs : ∀ (x : Member) (t' : Nat) (sub : Message), Has (m.member x) t' sub →
        Exact (.named t') sub)
      (unknown : KeepsComplete env S keep t m) : Exact t m

/-- What is asked of one member. -/
structure ExactAt (t : MessageType) (m : Message) (x : Member) : Prop where
  own : ∀ (i : Nat) (f : FieldInfo), x = .field i → (S.propertyOrdering t).fields[i]? = some f →
    f.memberAt i = .field i → HoldsOwn f (m.member (.field i))
  oneof : ∀ (i j : Nat) (f : FieldInfo), x = .oneof j →
    (S.propertyOrdering t).fields[i]? = some f → f.presence = .oneof j →
      holdsField (m.oneofState j) f.fieldNumber = true → (m.oneofState j).2.IsOf f.type
  subs : ∀ (t' : Nat) (sub : Message), Has (m.member x) t' sub → Exact env S keep (.named t') sub

/-- All messages in a value are exact. -/
def ExactSubs (v : Value) : Prop := ∀ t' sub, Has v t' sub → Exact env S keep (.named t') sub

/-- A property of a field: a value of its type, or a number that was read for an enumerator. -/
structure ExactProperty (f : FieldInfo) (v : Value) : Prop where
  type : v.IsOf f.type ∨ ∃ e y, f.type = .enum e ∧ v = .scalar ⟨.int64, y⟩
  subs : ExactSubs env S keep v

/-- What setters leave of lists and maps of messages that they compare are such messages. -/
structure AssignsExact : Prop where
  messages : ∀ t old new, ExactSubs env S keep (.messages t old) →
    ExactSubs env S keep (.messages t new) →
      ExactSubs env S keep (.messages t (S.assignMessages t old new))
  entries : ∀ key t old new, (Value.hash old).IsOf (.hash key (.message t)) →
    (Value.hash new).IsOf (.hash key (.message t)) → ExactSubs env S keep (.hash old) →
      ExactSubs env S keep (.hash new) →
        (Value.hash (S.assignEntries t old new)).IsOf (.hash key (.message t)) ∧
          ExactSubs env S keep (.hash (S.assignEntries t old new))

end

variable {env : Environment} {S : Schema} {keep : Bool} {t : MessageType} {i : Nat} {f : FieldInfo}
  {m m' : Message}

/-- A message is exact if every member is and it keeps complete fields. -/
theorem exact_iff : Exact env S keep t m ↔
    (∀ x, ExactAt env S keep t m x) ∧ KeepsComplete env S keep t m := by
  constructor
  · rintro ⟨own, oneof, subs, unknown⟩
    exact ⟨fun x => ⟨fun i f _ => own i f, fun i j f _ => oneof i j f, subs x⟩, unknown⟩
  · rintro ⟨h, unknown⟩
    exact ⟨fun i f => (h (.field i)).own i f rfl, fun i j f => (h (.oneof j)).oneof i j f rfl,
      fun x => (h x).subs, unknown⟩

/-- What is asked of a member does not depend on the others. -/
theorem ExactAt.of_eq {x : Member} (h : ExactAt env S keep t m x)
    (hmember : m'.member x = m.member x) : ExactAt env S keep t m' x := by
  refine ⟨fun i f hx => ?_, fun i j f hx => ?_, ?_⟩
  · subst hx
    rw [hmember]
    exact h.own i f rfl
  · subst hx
    rw [show m'.oneofState j = m.oneofState j by simp only [Message.oneofState, hmember]]
    exact h.oneof i j f rfl
  · rw [hmember]
    exact h.subs

/-- Nor does what is asked of the unknown fields depend on the members. -/
theorem KeepsComplete.of_eq (h : KeepsComplete env S keep t m)
    (hentries : m'.unknownEntries = m.unknownEntries) : KeepsComplete env S keep t m' := by
  obtain ⟨us, hgroups, hus⟩ := h
  exact ⟨us, by rwa [hentries], hus⟩

/-- A message that keeps nothing keeps complete fields. -/
theorem keepsComplete_of_nil (h : m.unknownEntries = []) : KeepsComplete env S keep t m :=
  ⟨[], by rw [h]; exact Groups.nil, by simp⟩

/-- Another complete field of an unknown number may be kept. -/
theorem KeepsComplete.kept (h : KeepsComplete env S keep t m) {x : WireField} (hx : x.Complete env)
    (hindex : (S.propertyOrdering t).indexOfFieldNumber x.fieldNumber = none) :
    KeepsComplete env S keep t (keptMessage keep m x) := by
  obtain ⟨us, hgroups, hus⟩ := h
  cases keep with
  | false => exact ⟨us, hgroups, hus⟩
  | true =>
    refine ⟨us ++ [x], ?_, fun y hy => ?_⟩
    · change Groups _ (m.storeUnknownEntry x.bytes x.fieldNumber).unknownEntries
      rw [unknownEntries_storeUnknownEntry, List.map_append]
      exact hgroups.add x.fieldNumber x.bytes
    · rcases List.mem_append.mp hy with hy | hy
      · exact hus y hy
      · obtain rfl := List.mem_singleton.mp hy
        exact ⟨hx, hindex, rfl⟩

/-! ## Values -/

/-- A value without messages has exact ones. -/
theorem exactSubs_of_plain {v : Value} (h : ∀ t' sub, ¬Has v t' sub) : ExactSubs env S keep v :=
  fun t' sub hsub => (h t' sub hsub).elim

/-- The value of a type that nothing was stored for holds no message. -/
theorem not_has_initialValue (type : PropertyType) (t' : Nat) (sub : Message) :
    ¬Has (type.initialValue S) t' sub := by
  intro hsub
  cases type <;> cases hsub <;> simp_all

/-- So its messages are exact. -/
theorem exactSubs_initialValue (type : PropertyType) :
    ExactSubs env S keep (type.initialValue S) := exactSubs_of_plain (not_has_initialValue type)

/-- It is a value of the type, unless that is a message. -/
theorem initialValue_isOf (type : PropertyType) (h : type.isPureMessage = false) :
    (type.initialValue S).IsOf type := by
  cases type with
  | scalar k => exact .scalar _
  | list k => exact .list _
  | enum e => exact .enum _
  | enumList e => exact .enumList _
  | message t => cases h
  | messageList t => exact .messageList _
  | hash key value => exact .hash (by simp) (by simp) (by simp)
  | custom h isList => exact .custom _

/-- A member may hold it. -/
theorem holdsOwn_initialValue (f : FieldInfo) : HoldsOwn f (f.type.initialValue S) := by
  cases hpure : f.type.isPureMessage with
  | false => exact .inl (initialValue_isOf f.type hpure)
  | true =>
    refine .inr ⟨?_, .inl hpure⟩
    cases htype : f.type <;> rw [htype] at hpure <;> first | rfl | cases hpure

/-- A member of its own may hold what stands for no value. -/
theorem holdsOwn_storedDefault (hown : ∀ j, f.presence ≠ .oneof j) :
    HoldsOwn f (f.storedDefault S) := by
  unfold FieldInfo.storedDefault
  split
  · rename_i hpresence
    exact .inr ⟨rfl, .inr hpresence⟩
  · rename_i j hpresence
    exact (hown j hpresence).elim
  · rename_i e hpresence htype
    left
    rw [htype]
    exact .enum 0
  · exact holdsOwn_initialValue f

/-- That holds no message either. -/
theorem not_has_storedDefault (f : FieldInfo) (t' : Nat) (sub : Message) :
    ¬Has (f.storedDefault S) t' sub := by
  intro h
  unfold FieldInfo.storedDefault at h
  split at h
  · cases h
  · cases h
  · cases h
  · exact not_has_initialValue f.type t' sub h

/-- A new message is exact. -/
theorem exact_defaultMessage (t : MessageType) : Exact env S keep t (S.defaultMessage t) := by
  refine ⟨fun i f hf hown => ?_, fun i j f hf hpresence hholds => ?_, fun x t' sub hsub => ?_,
    keepsComplete_of_nil rfl⟩
  · have hmember : (S.defaultMessage t).member (.field i) = f.storedDefault S := by
      simp [Schema.defaultMessage, Message.member, hf]
    rw [hmember]
    refine holdsOwn_storedDefault fun j hpresence => ?_
    simp [FieldInfo.memberAt, hpresence] at hown
  · simp [holdsField, Message.oneofState, Schema.defaultMessage, Message.member, Value.isNull]
      at hholds
  · cases x with
    | field i =>
      simp only [Schema.defaultMessage, Message.member] at hsub
      cases hf : (S.propertyOrdering t).fields[i]? with
      | none =>
        rw [hf] at hsub
        cases hsub
      | some f =>
        rw [hf] at hsub
        exact (not_has_storedDefault f t' sub hsub).elim
    | oneof j =>
      simp only [Schema.defaultMessage, Message.member] at hsub
      cases hsub with
      | oneof hsub => cases hsub

/-! ## Reading and writing a property -/

/-- A value of the type with exact messages is exact. -/
theorem exactProperty_of_isOf {v : Value} (h : v.IsOf f.type) (hsubs : ExactSubs env S keep v) :
    ExactProperty env S keep f v := ⟨.inl h, hsubs⟩

/-- So is one that nothing was stored for. -/
theorem exactProperty_initialValue (hpure : f.type.isPureMessage = false) :
    ExactProperty env S keep f (f.type.initialValue S) :=
  ⟨.inl (initialValue_isOf f.type hpure), exactSubs_initialValue f.type⟩

/-- A message in the value of a oneof is one in the member. -/
theorem has_oneofState {j t' : Nat} {sub : Message} (h : Has (m.oneofState j).2 t' sub) :
    Has (m.member (.oneof j)) t' sub := by
  have hne : (m.oneofState j).2 ≠ .null := by
    intro hnull
    rw [hnull] at h
    cases h
  rw [Message.member_oneof hne]
  exact .oneof h

/-- The message a decoder goes on with. -/
theorem exactProperty_ensureMessage {t' : Nat} (htype : f.type = .message t') {v : Value}
    (h : ExactSubs env S keep v) :
    ExactProperty env S keep f (.message t' (S.ensureMessage t' v)) := by
  refine ⟨.inl (by rw [htype]; exact .message _), fun u sub hsub => ?_⟩
  cases hsub with
  | message =>
    unfold Schema.ensureMessage
    split
    · split
      · rename_i heq
        subst heq
        exact h _ _ (.message _ _)
      · exact exact_defaultMessage _
    · exact exact_defaultMessage _

/-- Reading a property touches at most the member of a message. -/
theorem initializedProperty_exact (hf : (S.propertyOrdering t).fields[i]? = some f)
    (h : Exact env S keep t m) :
    ExactProperty env S keep f (S.initializedProperty m i f).2 ∧
      (∀ x, x ≠ f.memberAt i ∨ f.type.isPureMessage = false →
        (S.initializedProperty m i f).1.member x = m.member x) ∧
        (S.initializedProperty m i f).1.unknownEntries = m.unknownEntries := by
  obtain ⟨own, oneof, subs, -⟩ := h
  unfold Schema.initializedProperty
  split
  · rename_i j t' hpresence htype
    refine ⟨exactProperty_ensureMessage htype fun u sub hsub => subs (.oneof j) u sub
      (has_oneofState hsub), fun x hx => ?_, rfl⟩
    simp only [FieldInfo.memberAt, hpresence, htype, PropertyType.isPureMessage, Bool.true_eq_false,
      or_false] at hx
    exact Message.member_setMember_of_ne m _ hx
  · rename_i j hpresence hmessage
    have hpure : f.type.isPureMessage = false := by
      cases htype : f.type <;> simp_all [PropertyType.isPureMessage]
    split
    · rename_i hholds
      exact ⟨exactProperty_of_isOf (oneof i j f hf hpresence hholds)
        fun u sub hsub => subs (.oneof j) u sub (has_oneofState hsub), fun _ _ => rfl, rfl⟩
    · exact ⟨exactProperty_initialValue hpure, fun _ _ => rfl, rfl⟩
  · rename_i t' htype honeof
    have hown : f.memberAt i = .field i := by
      cases hpresence : f.presence <;> simp_all [FieldInfo.memberAt]
    refine ⟨exactProperty_ensureMessage htype fun u sub hsub => subs (.field i) u sub hsub,
      fun x hx => ?_, rfl⟩
    simp only [hown, htype, PropertyType.isPureMessage, Bool.true_eq_false, or_false] at hx
    exact Message.member_setMember_of_ne m _ hx
  · rename_i hpresence hmessage
    have hpure : f.type.isPureMessage = false := by
      cases htype : f.type <;> simp_all [PropertyType.isPureMessage]
    refine ⟨?_, fun _ _ => rfl, rfl⟩
    simp only
    split
    · exact exactProperty_initialValue hpure
    · rename_i hnull
      rcases own i f hf (by simp [FieldInfo.memberAt, hpresence]) with hvalue | ⟨hvalue, -⟩
      · exact exactProperty_of_isOf hvalue (subs (.field i))
      · rw [hvalue] at hnull
        exact absurd rfl hnull
  · rename_i hoptional honeof' hmessage honeof
    have hpure : f.type.isPureMessage = false := by
      cases htype : f.type <;> simp_all [PropertyType.isPureMessage]
    have hown : f.memberAt i = .field i := by
      cases hpresence : f.presence <;> simp_all [FieldInfo.memberAt]
    refine ⟨?_, fun _ _ => rfl, rfl⟩
    rcases own i f hf hown with hvalue | ⟨-, hpure' | hoptional'⟩
    · exact exactProperty_of_isOf hvalue (subs (.field i))
    · rw [hpure] at hpure'
      cases hpure'
    · simp_all

/-- A property is converted to a value of the type of the field. -/
theorem convert_exact {v : Value} (h : ExactProperty env S keep f v) :
    ∃ w, S.convert f.type v = some w ∧ w.IsOf f.type ∧ ExactSubs env S keep w := by
  rcases h.type with hvalue | ⟨e, y, htype, rfl⟩
  · refine ⟨v, ?_, hvalue, h.subs⟩
    unfold Schema.convert
    generalize f.type = type at hvalue
    cases hvalue <;> rfl
  · rw [htype]
    exact ⟨_, rfl, .enum _, exactSubs_of_plain fun t' sub hsub => by cases hsub⟩

/-- No two messages are compared equal by a setter. -/
theorem isPureMessage_of_isEqual {old v : Value} (h : S.isEqual old v = true) (hv : v.IsOf f.type) :
    f.type.isPureMessage = false := by
  generalize f.type = type at hv
  cases hv with
  | message m => cases old <;> cases h
  | _ => rfl

/-- What a setter leaves is of the type of the field. -/
theorem assigned_isOf (hassigns : AssignsExact env S keep) {old w : Value}
    (hold : f.type.isPureMessage = false → old.IsOf f.type ∧ ExactSubs env S keep old)
    (hw : w.IsOf f.type) (hsubs : ExactSubs env S keep w) :
    (S.assigned f.type old w).IsOf f.type ∧ ExactSubs env S keep (S.assigned f.type old w) := by
  generalize f.type = type at hold hw
  unfold Schema.assigned
  split
  · split
    · exact hold rfl
    · exact ⟨hw, hsubs⟩
  · rename_i t₀ t' ms t'' ms'
    obtain ⟨hvalue, hsubs'⟩ := hold rfl
    cases hvalue
    cases hw
    refine ⟨.messageList _, ?_⟩
    split
    · exact hassigns.messages _ _ _ hsubs' hsubs
    · exact hsubs
  · obtain ⟨hvalue, hsubs'⟩ := hold rfl
    split
    · exact hassigns.entries _ _ _ _ hvalue hw hsubs' hsubs
    · exact ⟨hw, hsubs⟩
  · split
    · exact hold rfl
    · exact ⟨hw, hsubs⟩
  · split
    · exact hold rfl
    · exact ⟨hw, hsubs⟩
  · exact ⟨hw, hsubs⟩

/-- A member that is set to such a value is exact. -/
theorem exactAt_setMember (hf : (S.propertyOrdering t).fields[i]? = some f) {v : Value}
    (hv : v.IsOf f.type) (hsubs : ExactSubs env S keep v) :
    ExactAt env S keep t (m.setMember (.field i) v) (.field i) := by
  refine ⟨fun k g hx hg _ => ?_, fun k j g hx => (by cases hx), ?_⟩
  · cases hx
    rw [hf] at hg
    cases hg
    rw [Message.member_setMember_self]
    exact .inl hv
  · rw [Message.member_setMember_self]
    exact hsubs

/-- So is a oneof. -/
theorem exactAt_setOneof {j : Nat} (hf : (S.propertyOrdering t).fields[i]? = some f) {v : Value}
    (hv : v.IsOf f.type) (hsubs : ExactSubs env S keep v) :
    ExactAt env S keep t (m.setMember (.oneof j) (.oneof f.fieldNumber v)) (.oneof j) := by
  have hstate : (m.setMember (.oneof j) (.oneof f.fieldNumber v)).oneofState j =
      (f.fieldNumber, v) := by
    simp [Message.oneofState]
  refine ⟨fun k g hx => (by cases hx), fun k j' g hx hg _ hholds => ?_, fun t' sub hsub => ?_⟩
  · cases hx
    rw [hstate] at hholds ⊢
    have hnumber : f.fieldNumber = g.fieldNumber := by
      simp only [holdsField, Bool.and_eq_true, beq_iff_eq] at hholds
      exact hholds.1.1
    rw [← fieldNumber_injective hf hg hnumber]
    exact hv
  · rw [Message.member_setMember_self] at hsub
    cases hsub with
    | oneof hsub => exact hsubs t' sub hsub

/-- A property is written, and all members are of their types. -/
theorem setMessageProperty_exactAt (hassigns : AssignsExact env S keep)
    (hf : (S.propertyOrdering t).fields[i]? = some f)
    (h : ∀ x, x ≠ f.memberAt i ∨ f.type.isPureMessage = false → ExactAt env S keep t m x)
    {v : Value} (hv : ExactProperty env S keep f v) :
    ∃ m', S.setMessageProperty m i f v = (m', true) ∧ (∀ x, ExactAt env S keep t m' x) ∧
      m'.unknownEntries = m.unknownEntries := by
  obtain ⟨w, hconvert, hw, hsubs⟩ := convert_exact hv
  have hset {x : Member} {content : Value} (hx : f.memberAt i = x)
      (hself : ExactAt env S keep t (m.setMember x content) x) (y : Member) :
      ExactAt env S keep t (m.setMember x content) y := by
    by_cases hy : y = x
    · rw [hy]
      exact hself
    · exact (h y (.inl (by rwa [hx]))).of_eq (Message.member_setMember_of_ne m _ hy)
  have hskip {old : Value} (hsame : S.isEqual old w = true) (y : Member) :
      ExactAt env S keep t m y := h y (.inr (isPureMessage_of_isEqual hsame hw))
  unfold Schema.setMessageProperty
  rw [hconvert]
  simp only
  cases hpresence : f.presence with
  | oneof j =>
    simp only
    split
    · rename_i hsame
      exact ⟨m, rfl, hskip hsame.2, rfl⟩
    · exact ⟨_, rfl, hset (by simp [FieldInfo.memberAt, hpresence]) (exactAt_setOneof hf hw hsubs), rfl⟩
  | optional | mapEntry =>
    simp only
    split
    · rename_i hsame
      exact ⟨m, rfl, hskip hsame, rfl⟩
    · exact ⟨_, rfl, hset (by simp [FieldInfo.memberAt, hpresence]) (exactAt_setMember hf hw hsubs), rfl⟩
  | implicit | required =>
    have hown : f.memberAt i = .field i := by simp [FieldInfo.memberAt, hpresence]
    have hold (hpure : f.type.isPureMessage = false) :
        (m.member (.field i)).IsOf f.type ∧ ExactSubs env S keep (m.member (.field i)) := by
      have hat := h (.field i) (.inr hpure)
      refine ⟨?_, hat.subs⟩
      rcases hat.own i f rfl hf hown with hvalue | ⟨-, hpure' | hoptional⟩
      · exact hvalue
      · rw [hpure] at hpure'
        cases hpure'
      · rw [hpresence] at hoptional
        cases hoptional
    obtain ⟨hvalue, hsubs'⟩ := assigned_isOf hassigns hold hw hsubs
    exact ⟨_, rfl, hset hown (exactAt_setMember hf hvalue hsubs'), rfl⟩

/-! ## Entries of maps -/

/-- The entry a map iterator hands out is exact, whatever the one before was. -/
theorem exact_addNext (key : ScalarKind) (value : MapValue) (entry : Option Message) :
    Exact env S keep (.mapEntry key value) (S.addNext key value entry) := by
  have hdefault := @exact_defaultMessage env S keep (.mapEntry key value)
  unfold Schema.addNext
  simp only
  split
  · rename_i k old _
    split
    · rename_i hequal
      obtain ⟨k', x⟩ := old
      obtain ⟨hk, -⟩ := Scalar.isEqual_iff.mp hequal
      obtain rfl : k' = k := hk
      obtain ⟨hat, hunknown⟩ := exact_iff.mp hdefault
      refine exact_iff.mpr ⟨fun y => ?_, hunknown.of_eq rfl⟩
      by_cases hy : y = .field 1
      · subst hy
        exact exactAt_setMember (i := 1) (f := ⟨2, "value", .scalar k', .mapEntry, true⟩) rfl
          (.scalar x) (exactSubs_of_plain fun t' sub hsub => by cases hsub)
      · exact (hat y).of_eq (Message.member_setMember_of_ne _ _ hy)
    · exact hdefault
  · exact hdefault

/-- What a field without presence holds is a value of its type. -/
theorem HoldsOwn.isOf {v : Value} (h : HoldsOwn f v) (hpure : f.type.isPureMessage = false)
    (hpresence : f.presence ≠ .optional) : v.IsOf f.type := by
  rcases h with h | ⟨-, hpure' | hoptional⟩
  · exact h
  · rw [hpure] at hpure'
    cases hpure'
  · exact (hpresence hoptional).elim

/-- The key of an entry is of the type of the keys. -/
theorem entryKey_kind {key : ScalarKind} {value : MapValue} {entry : Message}
    (h : Exact env S keep (.mapEntry key value) entry) : (entryKey key entry).1 = key := by
  have hat := (exact_iff.mp h).1 (.field 0)
  have hkey : (entry.member (.field 0)).IsOf (.scalar key) := (hat.own 0 _ rfl rfl rfl).isOf rfl (by simp)
  unfold entryKey
  generalize entry.member (.field 0) = v at hkey
  cases hkey with
  | scalar x => rfl

/-- The value of an exact entry is exact. -/
theorem entryValue_exact {key : ScalarKind} {value : MapValue} {entry : Message}
    (h : Exact env S keep (.mapEntry key value) entry) :
    (S.entryValue value entry).IsOf (.ofMapValue value) ∧
      ExactSubs env S keep (S.entryValue value entry) := by
  have hat := (exact_iff.mp h).1 (.field 1)
  have hown := hat.own 1 _ rfl rfl rfl
  unfold Schema.entryValue
  cases value with
  | message t' =>
    have hproperty := @exactProperty_ensureMessage env S keep
      ⟨2, "value", .message t', .mapEntry, true⟩ t' rfl _ hat.subs
    exact ⟨.message _, hproperty.subs⟩
  | scalar k => exact ⟨hown.isOf rfl (by simp), hat.subs⟩
  | enum e => exact ⟨hown.isOf rfl (by simp), hat.subs⟩

/-- A decoded entry goes into a map. -/
theorem hashEmplace_exact {key : ScalarKind} {value : MapValue} {entries : List (Scalar × Value)}
    {entry : Message} (h : (Value.hash entries).IsOf (.hash key value))
    (hsubs : ExactSubs env S keep (.hash entries))
    (hentry : Exact env S keep (.mapEntry key value) entry) :
    (Value.hash (hashEmplace entries (entryKey key entry) (S.entryValue value entry))).IsOf
        (.hash key value) ∧
      ExactSubs env S keep
        (.hash (hashEmplace entries (entryKey key entry) (S.entryValue value entry))) := by
  obtain ⟨hvalue, hvalueSubs⟩ := entryValue_exact hentry
  cases h with
  | hash hkeys hnodup hvalues =>
    refine ⟨.hash (fun e he => ?_) ?_ fun e he => ?_, fun t' sub hsub => ?_⟩
    · rcases mem_hashEmplace he with he | rfl
      · exact hkeys e he
      · exact entryKey_kind hentry
    · rw [keys_hashEmplace]
      split
      · exact hnodup
      · rename_i hnew
        exact List.nodup_append.mpr ⟨hnodup, List.nodup_singleton _, fun a ha b hb heq =>
          hnew (List.mem_singleton.mp hb ▸ heq ▸ ha)⟩
    · rcases mem_hashEmplace he with he | rfl
      · exact hvalues e he
      · exact hvalue
    · cases hsub with
      | entry he hsub =>
        rcases mem_hashEmplace he with he | rfl
        · exact hsubs t' sub (.entry he hsub)
        · exact hvalueSubs t' sub hsub

/-! ## Drafts -/

variable (env S keep) in
/-- A message in the course of decoding: exact but for the property that is not written yet. -/
inductive ExactDraft (t : MessageType) (p : Draft) : Prop where
  | stored (hindex : p.cache.index = none) (h : Exact env S keep t p.message)
  | cached {i : Nat} {f : FieldInfo} (hindex : p.cache.index = some i)
      (hf : (S.propertyOrdering t).fields[i]? = some f)
      (hv : ExactProperty env S keep f p.cache.propertyValue)
      (h : ∀ x, x ≠ f.memberAt i ∨ f.type.isPureMessage = false → ExactAt env S keep t p.message x)
      (hunknown : KeepsComplete env S keep t p.message)

/-- An exact property has a value. -/
theorem ExactProperty.isNull {v : Value} (h : ExactProperty env S keep f v) : v.isNull = false := by
  rcases h.type with hvalue | ⟨e, y, -, rfl⟩
  · exact isNull_of_isOf hvalue
  · rfl

/-- A field of an unknown number may be kept in the course of decoding. -/
theorem ExactDraft.kept {p : Draft} (h : ExactDraft env S keep t p) {x : WireField}
    (hx : x.Complete env)
    (hindex : (S.propertyOrdering t).indexOfFieldNumber x.fieldNumber = none) :
    ExactDraft env S keep t ⟨p.cache, keptMessage keep p.message x⟩ := by
  have hmember (y : Member) : (keptMessage keep p.message x).member y = p.message.member y := by
    rw [member_keptMessage]
  cases h with
  | stored hnone h =>
    obtain ⟨hat, hunknown⟩ := exact_iff.mp h
    exact .stored hnone (exact_iff.mpr ⟨fun y => (hat y).of_eq (hmember y), hunknown.kept hx hindex⟩)
  | cached hcached hf hv h hunknown =>
    exact .cached hcached hf hv (fun y hy => (h y hy).of_eq (hmember y)) (hunknown.kept hx hindex)

/-- When the property is written the message is exact. -/
theorem ExactDraft.store (hassigns : AssignsExact env S keep) {p : Draft}
    (h : ExactDraft env S keep t p) : ∃ c m, storeCachedValue S t p.cache p.message = (c, m, true) ∧
      c.index = none ∧ Exact env S keep t m := by
  cases h with
  | stored hindex h =>
    refine ⟨p.cache, p.message, ?_, hindex, h⟩
    simp only [storeCachedValue, hindex]
  | cached hindex hf hv h hunknown =>
    obtain ⟨m, hset, hat, hentries⟩ := setMessageProperty_exactAt hassigns hf h hv
    refine ⟨{}, m, ?_, rfl, exact_iff.mpr ⟨hat, hunknown.of_eq hentries⟩⟩
    simp only [storeCachedValue, hindex, hv.isNull, hf, hset, Bool.false_eq_true, if_false]

/-- The property of a field is selected. -/
theorem ExactDraft.select (hassigns : AssignsExact env S keep) {p : Draft}
    (h : ExactDraft env S keep t p) (hf : (S.propertyOrdering t).fields[i]? = some f) :
    ∃ c m, selectProperty S t i f p.cache p.message = (c, m, true) ∧ c.index = some i ∧
      ExactProperty env S keep f c.propertyValue ∧
        (∀ x, x ≠ f.memberAt i ∨ f.type.isPureMessage = false → ExactAt env S keep t m x) ∧
          KeepsComplete env S keep t m := by
  unfold selectProperty
  by_cases hi : p.cache.index = some i
  · rw [if_pos hi]
    cases h with
    | stored hindex h => simp [hindex] at hi
    | cached hindex hf' hv h hunknown =>
      rw [hindex] at hi
      cases hi
      rw [hf] at hf'
      cases hf'
      exact ⟨p.cache, p.message, rfl, hindex, hv, h, hunknown⟩
  · rw [if_neg hi]
    obtain ⟨c, m, hstore, -, hm⟩ := h.store hassigns
    obtain ⟨hproperty, hother, hentries⟩ := initializedProperty_exact hf hm
    obtain ⟨hat, hunknown⟩ := exact_iff.mp hm
    rw [hstore]
    exact ⟨{ c with
      index := some i
      propertyValue := (S.initializedProperty m i f).2 }, (S.initializedProperty m i f).1, rfl, rfl,
      hproperty, fun x hx => (hat x).of_eq (hother x hx), hunknown.of_eq hentries⟩

/-- What a field takes from a payload is exact. -/
theorem Taken.exactProperty {x : WireField} {v v' : Value} (h : Taken env x f.type v v') :
    ExactProperty env S keep f v' := by
  generalize htype : f.type = type at h
  have hplain (hvalue : v'.IsOf type) (hsubs : ∀ t' sub, ¬Has v' t' sub) :
      ExactProperty env S keep f v' :=
    exactProperty_of_isOf (by rwa [htype]) (exactSubs_of_plain hsubs)
  cases h with
  | scalar => exact hplain (.scalar _) fun t' sub hsub => by cases hsub
  | packed => exact hplain (.list _) fun t' sub hsub => by cases hsub
  | element => exact hplain (.list _) fun t' sub hsub => by cases hsub
  | enumerator => exact ⟨.inr ⟨_, _, htype, rfl⟩, exactSubs_of_plain fun t' sub hsub => by cases hsub⟩
  | enumPacked => exact hplain (.enumList _) fun t' sub hsub => by cases hsub
  | enumElement => exact hplain (.enumList _) fun t' sub hsub => by cases hsub

/-- A nested message starts exact. -/
theorem Nests.start_exact {start : Message} {c : Cache} {t' : MessageType}
    {next : Message → Cache} {message : Message → Message}
    (h : Nests S i f m c t' start next message) (hv : ExactProperty env S keep f c.propertyValue) :
    Exact env S keep t' start := by
  cases h with
  | message htype hc =>
    have hvalue := hv.type
    rw [htype, hc] at hvalue
    rcases hvalue with hvalue | ⟨e, y, heq, -⟩
    · cases hvalue
      exact hv.subs _ _ (hc ▸ .message _ _)
    · cases heq
  | messageList htype hc => exact exact_defaultMessage _
  | entry htype hc => exact exact_addNext _ _ _
  | custom hhandler hc => exact exact_defaultMessage _

/-- The property that took an exact message in is one of the field. -/
theorem Nests.next_exact {start sub : Message} {c : Cache} {t' : MessageType}
    {next : Message → Cache} {message : Message → Message}
    (h : Nests S i f m c t' start next message) (hv : ExactProperty env S keep f c.propertyValue)
    (hsub : Exact env S keep t' sub) :
    (next sub).index = c.index ∧ ExactProperty env S keep f (next sub).propertyValue ∧
      (∀ x, x ≠ f.memberAt i ∨ f.type.isPureMessage = false → (message sub).member x = m.member x) ∧
        (message sub).unknownEntries = m.unknownEntries := by
  have htyped (type : PropertyType) (htype : f.type = type) (henum : type.isEnum = false) :
      c.propertyValue.IsOf type := by
    rcases hv.type with hvalue | ⟨e, y, heq, -⟩
    · rwa [htype] at hvalue
    · rw [← htype, heq] at henum
      cases henum
  cases h with
  | message htype hc =>
    refine ⟨rfl, exactProperty_of_isOf (by rw [htype]; exact .message _) fun u sub' h => ?_,
      fun x hx => ?_, ?_⟩
    · cases h with
      | message => exact hsub
    · simp only [htype, PropertyType.isPureMessage, Bool.true_eq_false, or_false] at hx
      unfold Message.writeThrough
      unfold FieldInfo.memberAt at hx
      split <;> simp_all
    · unfold Message.writeThrough
      split <;> rfl
  | messageList htype hc =>
    have hvalue := htyped _ htype rfl
    have hsubs := hv.subs
    rw [hc] at hvalue hsubs
    cases hvalue
    refine ⟨rfl, exactProperty_of_isOf (by rw [htype]; exact .messageList _) fun u sub' h => ?_,
      fun _ _ => rfl, rfl⟩
    cases h with
    | element hmem =>
      rcases List.mem_append.mp hmem with hmem | hmem
      · exact hsubs _ _ (.element hmem)
      · obtain rfl := List.mem_singleton.mp hmem
        exact hsub
  | entry htype hc =>
    have hvalue := htyped _ htype rfl
    have hsubs := hv.subs
    rw [hc] at hvalue hsubs
    obtain ⟨hvalue', hsubs'⟩ := hashEmplace_exact hvalue hsubs hsub
    exact ⟨rfl, exactProperty_of_isOf (by rw [htype]; exact hvalue') hsubs', fun _ _ => rfl, rfl⟩
  | custom hhandler hc =>
    refine ⟨rfl, ?_, fun _ _ => rfl, rfl⟩
    cases htype : f.type with
    | custom k isList =>
      have hvalue := htyped _ htype rfl
      rw [hc] at hvalue
      cases hvalue
      exact exactProperty_of_isOf (by rw [htype]; exact .custom _)
        (exactSubs_of_plain fun u sub' h => by cases h)
    | _ =>
      rw [htype] at hhandler
      cases hhandler

/-- Fields keep a draft exact. -/
theorem Decodes.exact (hassigns : AssignsExact env S keep) {xs : List WireField} {p q : Draft}
    (h : Decodes env S keep t xs p q) (hp : ExactDraft env S keep t p) :
    ExactDraft env S keep t q := by
  induction h with
  | nil t p => exact hp
  | unknown hx hindex rest ih => exact ih (hp.kept hx hindex)
  | plain hx hindex hfield hselect htaken rest ih =>
    obtain ⟨c, m, hselect', hc, -, hat, hunknown⟩ := hp.select hassigns hfield
    rw [hselect] at hselect'
    cases hselect'
    exact ih (.cached hc hfield htaken.exactProperty hat hunknown)
  | nested hx hindex hfield hselect hnests hpayload hlength hsize hsub hstore hrequired rest ihsub
      ih =>
    obtain ⟨c, m, hselect', hc, hproperty, hat, hunknown⟩ := hp.select hassigns hfield
    rw [hselect] at hselect'
    cases hselect'
    obtain ⟨_, sub, hstore', -, hexact⟩ :=
      (ihsub (.stored rfl (hnests.start_exact hproperty))).store hassigns
    rw [hstore] at hstore'
    cases hstore'
    obtain ⟨hindex', hproperty', hmember, hentries⟩ := hnests.next_exact hproperty hexact
    exact ih (.cached (hindex'.trans hc) hfield hproperty'
      (fun x hx => (hat x hx).of_eq (hmember x hx)) (hunknown.of_eq hentries))

/-! ## Round trips of decoded messages -/

/-- A message in a property is one in a member. -/
theorem has_messageProperty {t' : Nat} {sub : Message} (h : Has (m.messageProperty i f) t' sub) :
    ∃ x, Has (m.member x) t' sub := by
  unfold Message.messageProperty at h
  split at h
  · rename_i j hpresence
    split at h
    · exact ⟨.oneof j, has_oneofState h⟩
    · cases h
  · exact ⟨.field i, h⟩

/-- The messages held by an exact message are exact. -/
theorem Exact.holds (h : Exact env S keep t m) {u : MessageType} {n : Message}
    (hholds : Message.Holds S t m u n) : Exact env S keep u n := by
  have hsub {t : MessageType} {m : Message} (h : Exact env S keep t m) {i : Nat} {f : FieldInfo}
      {v : Value} (hv : m.messageProperty i f = v) {t' : Nat} {sub : Message} (hhas : Has v t' sub) :
      Exact env S keep (.named t') sub := by
    rw [← hv] at hhas
    obtain ⟨x, hx⟩ := has_messageProperty hhas
    exact ((exact_iff.mp h).1 x).subs t' sub hx
  induction hholds with
  | self => exact h
  | message hf hv _ ih => exact ih (hsub h hv (.message _ _))
  | element hf hv hm _ ih => exact ih (hsub h hv (.element hm))
  | value hf hv hm _ ih => exact ih (hsub h hv (.entry hm (.message _ _)))

/-- Only messages of named types are held. -/
theorem holds_named {t : Nat} {u : MessageType} {n : Message}
    (h : Message.Holds S (.named t) m u n) : ∃ t', u = .named t' := by
  generalize ht : MessageType.named t = t₀ at h
  induction h generalizing t with
  | self => exact ⟨t, ht.symm⟩
  | message _ _ _ ih => exact ih rfl
  | element _ _ _ _ ih => exact ih rfl
  | value _ _ _ _ ih => exact ih rfl

/-- An exact message is one of its type. -/
theorem Exact.valid {t : Nat} (hown : ∀ f ∈ (S.message t).fields, f.presence ≠ .mapEntry)
    (h : Exact env S keep (.named t) m) : m.Valid S (.named t) := by
  obtain ⟨hat, us, hgroups, hus⟩ := exact_iff.mp h
  refine ⟨fun i f hf => ?_, hgroups.nodup, fun g hg => ?_⟩
  · have hpresence := hown f (List.mem_of_getElem? hf)
    by_cases honeof : ∃ j, f.presence = .oneof j
    · obtain ⟨j, honeof⟩ := honeof
      simp only [Message.messageProperty, honeof]
      split
      · rename_i hholds
        exact .inl ((hat (.oneof j)).oneof i j f rfl hf honeof hholds)
      · exact .inr ⟨rfl, by simp [FieldInfo.mayBeUnset, honeof]⟩
    · have hmember : f.memberAt i = .field i := by
        cases hp : f.presence <;> simp_all [FieldInfo.memberAt]
      have hproperty : m.messageProperty i f = m.member (.field i) := by
        cases hp : f.presence <;> simp_all [Message.messageProperty]
      rw [hproperty]
      refine ((hat (.field i)).own i f rfl hf hmember).imp_right (And.imp_right fun hunset => ?_)
      cases hp : f.presence <;> simp_all [FieldInfo.mayBeUnset]
  · have hgroup := (hgroups.mem_iff g.1 g.2).mp hg
    have hkey : g.1 ∈ m.unknownEntries.map Prod.fst := List.mem_map_of_mem hg
    obtain ⟨e, he, hnumber⟩ := List.mem_map.mp ((hgroups.mem_keys g.1).mp hkey)
    obtain ⟨x, hx, rfl⟩ := List.mem_map.mp he
    exact ⟨hgroup.1, hnumber ▸ (hus x hx).2.1⟩

/-- The fields that are kept are complete. -/
theorem KeepsComplete.entriesComplete (h : KeepsComplete env S keep t m) :
    EntriesComplete env keep m := by
  obtain ⟨us, hgroups, hus⟩ := h
  intro g hg
  have hvalues := ((hgroups.mem_iff g.1 g.2).mp hg).2
  rw [valuesOf_numbered] at hvalues
  have hentry (entry : Bytes) (hentry : entry ∈ g.2) :
      ∃ x ∈ us, x.fieldNumber = g.1 ∧ x.bytes = entry := by
    rw [hvalues] at hentry
    obtain ⟨x, hx, rfl⟩ := List.mem_map.mp hentry
    obtain ⟨hx, hnumber⟩ := List.mem_filter.mp hx
    exact ⟨x, hx, by simpa using hnumber, rfl⟩
  refine ⟨?_, fun entry hmem => ?_⟩
  · obtain ⟨entry, hmem⟩ := List.exists_mem_of_ne_nil g.2 ((hgroups.mem_iff g.1 g.2).mp hg).1
    obtain ⟨x, hx, -⟩ := hentry entry hmem
    exact (hus x hx).2.2
  · obtain ⟨x, hx, hnumber, hbytes⟩ := hentry entry hmem
    exact ⟨x, (hus x hx).1, hnumber, hbytes⟩

/-- An exact message is one that can be read again. -/
theorem Exact.recoverable (hown : ∀ t, ∀ f ∈ (S.message t).fields, f.presence ≠ .mapEntry) {t : Nat}
    (h : Exact env S keep (.named t) m) : Recoverable env S keep (.named t) m := by
  intro u n hholds
  obtain ⟨t', rfl⟩ := holds_named hholds
  have hn := h.holds hholds
  exact ⟨hn.valid (hown t'), (exact_iff.mp hn).2.entriesComplete⟩

/-- What a serializer writes for such a message it finds again. -/
theorem Recoverable.writtenAgain {order : HashOrder} (hS : Ordinary S) {d : SerializerPrivate}
    (hlimit : d.base.effectiveMaximumInputSize = maxSerializeMessageSizeLimit)
    (hm : Recoverable env S d.preserveUnknownFields t m)
    (htexts : Throughout S (fun u n => n.Unmarked S u) t m) : RoundTrips env order S d t m :=
  (hS.restorable order).foundAgain hlimit fun u n hholds =>
    ⟨(hm u n hholds).1, (hm u n hholds).2, htexts u n hholds⟩

/-- Decoding, encoding and decoding once more gives the message that was decoded first: whatever
fields of its type a message was decoded from, with its unknown fields kept or dropped, it is a
message of its type, and if no string in it starts with U+FEFF the serializer writes it, if at all,
as bytes that it accepts and decodes into the same message. -/
theorem roundTrips_decoded (env : Environment) (order : HashOrder) (S : Schema) (hS : Ordinary S)
    (hown : ∀ t, ∀ f ∈ (S.message t).fields, f.presence ≠ .mapEntry) (d : SerializerPrivate)
    (hassigns : AssignsExact env S d.preserveUnknownFields)
    (hlimit : d.base.effectiveMaximumInputSize = maxSerializeMessageSizeLimit) (t : Nat)
    (xs : List WireField) (hfits : ∀ x ∈ xs, Fits env S (.named t) x)
    (hsize : (xs.flatMap WireField.bytes).length ≤ maxSerializeMessageSizeLimit) (fuel : Nat)
    (hfuel : (xs.flatMap WireField.bytes).length < fuel) :
    ∃ d' m, d.deserializeMessage env S fuel (.named t) (xs.flatMap WireField.bytes) =
        (d', m, .returned true) ∧ m.IsOf S (.named t) ∧
      (Throughout S (fun u n => n.Unmarked S u) (.named t) m →
        RoundTrips env order S d' (.named t) m) := by
  obtain ⟨q, m, ok, hq, hstore, hresult, hok, -⟩ := exists_deserialized d hfits
    (by rw [hlimit]; exact hsize) hfuel
  rw [hok.mpr (hS.requiredPresent _ xs)] at hresult
  obtain ⟨_, m', hstore', -, hexact⟩ :=
    (hq.exact hassigns (.stored rfl (exact_defaultMessage _))).store hassigns
  rw [hstore] at hstore'
  cases hstore'
  obtain ⟨hkeep, hlimit'⟩ := @deserializeMessage_keeps env S d fuel (.named t)
    (xs.flatMap WireField.bytes)
  have hrecoverable := hexact.recoverable hown
  refine ⟨_, m, Prod.ext rfl hresult, fun u n hholds => (hrecoverable u n hholds).1, ?_⟩
  refine Recoverable.writtenAgain hS (hlimit'.trans hlimit) ?_
  rwa [hkeep]

/-- A reading has no strings and no messages in it. -/
theorem unmarked_reading (hm : m.IsOf readingSchema (.named 0)) :
    Throughout readingSchema (fun u n => n.Unmarked readingSchema u) (.named 0) m := by
  have hproperty {i : Nat} {f : FieldInfo}
      (hf : (readingSchema.propertyOrdering (.named 0)).fields[i]? = some f) :
      (∃ v : BitVec 64, m.messageProperty i f = .scalar ⟨.int64, v⟩) ∨
        m.messageProperty i f = .null := by
    rcases (hm _ _ (.self _ _)).fields i f hf with hvalue | ⟨hnull, -⟩
    · generalize m.messageProperty i f = v at hvalue ⊢
      rcases i with _ | i
      · cases hf
        cases hvalue with
        | scalar v => exact .inl ⟨v, rfl⟩
      · cases hf
    · exact .inr hnull
  intro u n hholds
  cases hholds with
  | self =>
    intro i f hf text htext
    obtain ⟨v, hv⟩ | hv := hproperty hf
    all_goals
      rw [hv] at htext
      cases htext
  | message hf hv | element hf hv | value hf hv =>
    obtain ⟨v, hv'⟩ | hv' := hproperty hf
    all_goals
      rw [hv'] at hv
      cases hv

/-- A reading that was decoded from fields in no particular order. -/
theorem roundTrips_decoded_reading :
    ∃ d' m, (SerializerPrivate.new {}).deserializeMessage nullTerminated readingSchema 20 (.named 0)
        (readingFields.flatMap WireField.bytes) = (d', m, .returned true) ∧
      RoundTrips nullTerminated .ofInsertion readingSchema d' (.named 0) m := by
  have hown : ∀ t, ∀ f ∈ (readingSchema.message t).fields, f.presence ≠ .mapEntry := by
    intro t f hf
    match t with
    | 0 =>
      obtain rfl := List.mem_singleton.mp hf
      simp
    | _ + 1 => cases hf
  obtain ⟨d', m, hresult, hm, hfound⟩ := roundTrips_decoded nullTerminated .ofInsertion readingSchema
    ordinary_reading hown (.new {}) ⟨fun _ _ _ _ h => h, fun _ _ _ _ _ h _ h' => ⟨h, h'⟩⟩ rfl 0
    readingFields fits_readingFields (by decide) 20 (by decide)
  exact ⟨d', m, hresult, hfound (unmarked_reading hm)⟩

end QtGrpc.Protobuf.Binary
