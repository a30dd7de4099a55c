import QtGrpc.Protobuf.Contents
import QtGrpc.Protobuf.Binary.Merging
import QtGrpc.Protobuf.Binary.Written

/-!
# Properties that are found again

From the fields that the encoder writes for a property the decoder makes a property of the same
content, if it starts with the one of a new message. The sign of a zero may change when an entry of
a map is put together, and a hash may come in another order.
-/

namespace QtGrpc.Protobuf.Binary

section

variable (env : Environment) (S : Schema) (keep : Bool)

/-- What several occurrences of a field make of its property, and of the entry of a map. -/
inductive TurnsAll (f : FieldInfo) :
    List WireField → Option Message → Value → Option Message → Value → Prop where
  | nil (entry : Option Message) (v : Value) : TurnsAll f [] entry v entry v
  | cons {x : WireField} {xs : List WireField} {entry entry' entry'' : Option Message}
      {v v' v'' : Value} (h : Turns env S keep x f entry v entry' v')
      (rest : TurnsAll f xs entry' v' entry'' v'') : TurnsAll f (x :: xs) entry v entry'' v''

/-- The member of a field has not been written since the message was new. -/
def IsFresh (m : Message) (i : Nat) (f : FieldInfo) : Prop :=
  match f.presence with
  | .oneof j => m.oneofState j = (0, .null)
  | .mapEntry => f.type.isPureMessage = true → m.member (.field i) = .null
  | _ => m.member (.field i) = f.storedDefault S

/-- A message none of whose members have been written. -/
structure Blank (t : MessageType) (m : Message) : Prop where
  fresh : ∀ i f, (S.propertyOrdering t).fields[i]? = some f → IsFresh S m i f
  unknown : m.unknownEntries = []

/-- What a property of a new message may hold, as far as it is added to. -/
def IsInitial (f : FieldInfo) (v : Value) : Prop :=
  match f.type with
  | .scalar _ | .enum _ => True
  | .list k => v = .scalars k []
  | .enumList e => v = .enumerators e []
  | .message t => v = .message t (S.defaultMessage (.named t))
  | .messageList t => v = .messages t []
  | .hash .. => v = .hash []
  | .custom h _ => v = .custom h []

/-- The comparison in the setter of a type with a handler tells this value from a new one. -/
def SetterKeeps (value : Value) : Prop :=
  ∀ h content, value = .custom h content → S.isEqual (.custom h []) value = true → content = []

end

section

variable {env : Environment} {S : Schema} {keep : Bool} {t : MessageType} {i : Nat} {f : FieldInfo}
  {m M : Message}

/-! ## New messages -/

/-- Every field of a new message is fresh. -/
theorem isFresh_defaultMessage (hf : (S.propertyOrdering t).fields[i]? = some f) :
    IsFresh S (S.defaultMessage t) i f := by
  have hmember : (S.defaultMessage t).member (.field i) = f.storedDefault S := by
    simp [Schema.defaultMessage, Message.member, hf]
  unfold IsFresh
  split
  · rfl
  · rename_i hpresence
    intro hpure
    rw [hmember]
    cases htype : f.type <;> rw [htype] at hpure <;> cases hpure
    simp [FieldInfo.storedDefault, hpresence, htype, PropertyType.initialValue]
  · exact hmember

/-- A new message is blank. -/
theorem blank_defaultMessage (S : Schema) (t : MessageType) : Blank S t (S.defaultMessage t) :=
  ⟨fun _ _ hf => isFresh_defaultMessage hf, rfl⟩

/-- The entry that the decoder hands out is new, but for a value that may be another zero. -/
theorem blank_addNext (key : ScalarKind) (value : MapValue) (entry : Option Message) :
    Blank S (.mapEntry key value) (S.addNext key value entry) := by
  have hdefault := blank_defaultMessage S (.mapEntry key value)
  unfold Schema.addNext
  split
  · rename_i k old _
    split
    · refine ⟨fun i f hf => ?_, rfl⟩
      have hpresence : f.presence = .mapEntry := by
        have hmem := List.mem_of_getElem? hf
        simp only [Schema.propertyOrdering, MessageDescriptor.mapEntry, List.mem_cons,
          List.not_mem_nil, or_false] at hmem
        rcases hmem with rfl | rfl <;> rfl
      have hpure : f.type.isPureMessage = false := by
        have hmem := List.mem_of_getElem? hf
        simp only [Schema.propertyOrdering, MessageDescriptor.mapEntry, List.mem_cons,
          List.not_mem_nil, or_false] at hmem
        rcases hmem with rfl | rfl <;> rfl
      unfold IsFresh
      simp [hpresence, hpure]
    · exact hdefault
  · exact hdefault

/-- The property of a member that was not written is the one of a new message. -/
theorem IsFresh.isInitial (h : IsFresh S M i f) (hfits : f.presenceFits = true) :
    IsInitial S f (S.initializedProperty M i f).2 := by
  unfold IsFresh at h
  unfold IsInitial Schema.initializedProperty
  unfold FieldInfo.presenceFits at hfits
  cases htype : f.type <;> cases hpresence : f.presence <;>
    simp_all [Schema.ensureMessage, FieldInfo.storedDefault, PropertyType.initialValue, holdsField,
      PropertyType.isPureMessage, Value.isNull]

/-! ## One field -/

/-- The occurrences of a field that is in the cache. -/
theorem TurnsAll.decodes_selected {xs : List WireField} {c : Cache} {entry : Option Message}
    {v : Value} (h : TurnsAll env S keep f xs c.mapEntry c.propertyValue entry v)
    (hc : c.index = some i) (hf : (S.propertyOrdering t).fields[i]? = some f)
    (hxs : ∀ x ∈ xs, x.Complete env ∧ x.fieldNumber = f.fieldNumber) (m : Message) :
    ∃ m', Decodes env S keep t xs ⟨c, m⟩ ⟨{ index := some i, propertyValue := v, mapEntry := entry }, m'⟩ ∧
      SameElsewhere i f m' m ∧ (f.type.isPureMessage = false → m' = m) ∧
        ∀ j, (m'.oneofState j).1 = (m.oneofState j).1 := by
  generalize hentry : c.mapEntry = e, hvalue : c.propertyValue = u at h
  induction h generalizing c m with
  | nil e u =>
    subst hentry hvalue
    rw [← hc]
    exact ⟨m, .nil t _, ⟨fun _ _ => rfl, rfl⟩, fun _ => rfl, fun _ => rfl⟩
  | cons hx rest ih =>
    rename_i x xs e e' e'' u u' u''
    subst hentry hvalue
    obtain ⟨hcomplete, hnumber⟩ := hxs x List.mem_cons_self
    have hindex := indexOfFieldNumber_of_getElem? hf
    rw [← hnumber] at hindex
    have hdecodes : Decodes env S keep t [x] ⟨c, m⟩ (Draft.turned ⟨c, m⟩ i f e' u') :=
      (decodes_known_iff hcomplete hindex hf).mpr ⟨c, m, e', u', by simp [selectProperty, hc], hx, rfl⟩
    obtain ⟨m', hrest, hsame, hplain, hnumbers⟩ :=
      @ih { c with propertyValue := u', mapEntry := e' } hc
        (fun y hy => hxs y (List.mem_cons_of_mem _ hy)) (placeProperty m i f u') rfl rfl
    refine ⟨m', hdecodes.append hrest, hsame.trans (sameElsewhere_placeProperty m i f u'),
      fun hpure => ?_, fun j => ?_⟩
    · rw [hplain hpure, placeProperty_of_not_isPureMessage hpure]
    · rw [hnumbers, number_placeProperty]

/-- The occurrences of a field behind those of others. -/
theorem TurnsAll.decodes {xs : List WireField} {p : Draft} {entry : Option Message} {v : Value}
    (h : TurnsAll env S keep f xs none (S.initializedProperty M i f).2 entry v) (hne : xs ≠ [])
    (hp : storeCachedValue S t p.cache p.message = ({}, M, true)) (hi : p.cache.index ≠ some i)
    (hf : (S.propertyOrdering t).fields[i]? = some f)
    (hxs : ∀ x ∈ xs, x.Complete env ∧ x.fieldNumber = f.fieldNumber) :
    ∃ m', Decodes env S keep t xs p
        ⟨{ index := some i, propertyValue := v, mapEntry := entry }, m'⟩ ∧
      SameElsewhere i f m' M ∧ (f.type.isPureMessage = false → m' = M) ∧
        ∀ j, (m'.oneofState j).1 = (M.oneofState j).1 := by
  cases h with
  | nil => exact absurd rfl hne
  | cons hx rest =>
    rename_i x xs e' u'
    obtain ⟨hcomplete, hnumber⟩ := hxs x List.mem_cons_self
    have hindex := indexOfFieldNumber_of_getElem? hf
    rw [← hnumber] at hindex
    let c : Cache := { index := some i, propertyValue := (S.initializedProperty M i f).2 }
    have hdecodes : Decodes env S keep t [x] p
        (Draft.turned ⟨c, (S.initializedProperty M i f).1⟩ i f e' u') :=
      (decodes_known_iff hcomplete hindex hf).mpr ⟨c, _, e', u',
        by simp [selectProperty, hi, hp, c], hx, rfl⟩
    obtain ⟨m', hrest, hsame, hplain, hnumbers⟩ := rest.decodes_selected
      (show ({ c with propertyValue := u', mapEntry := e' } : Cache).index = some i from rfl) hf
      (fun y hy => hxs y (List.mem_cons_of_mem _ hy))
      (placeProperty (S.initializedProperty M i f).1 i f u')
    refine ⟨m', hdecodes.append hrest, ?_, fun hpure => ?_, fun j => ?_⟩
    · exact hsame.trans ((sameElsewhere_placeProperty _ i f u').trans
        (sameElsewhere_initializedProperty M i f))
    · rw [hplain hpure, placeProperty_of_not_isPureMessage hpure,
        initializedProperty_of_not_isPureMessage hpure]
    · rw [hnumbers, number_placeProperty, number_initializedProperty]

/-- A value that has a type is not null. -/
theorem isNull_of_isOf {type : PropertyType} {v : Value} (h : v.IsOf type) : v.isNull = false := by
  cases h <;> rfl

/-- A member that is set is what its property reads. -/
theorem messageProperty_setMember (hpresence : ∀ j, f.presence ≠ .oneof j) (m : Message)
    (v : Value) : (m.setMember (.field i) v).messageProperty i f = v := by
  unfold Message.messageProperty
  cases hp : f.presence with
  | oneof j => exact absurd hp (hpresence j)
  | _ => exact Message.member_setMember_self m _ v

/-- A value of another type is not compared by a handler. -/
theorem setterKeeps_of_same {type : PropertyType} {v w : Value}
    (hcustom : ∀ h l, type ≠ .custom h l) (hw : w.IsOf type) (h : v.Same S w) : SetterKeeps S v := by
  rintro k content rfl
  cases h
  cases hw
  exact absurd rfl (hcustom _ _)

/-- The setter of a list, a map or a message that was empty stores what it is given. -/
theorem assigned_fresh {old w : Value} (hold : f.type.isPureMessage = true ∨ old = f.storedDefault S)
    (hpresence : f.presence = .implicit ∨ f.presence = .required) (hw : w.IsOf f.type)
    (hcustom : SetterKeeps S w) (hms : ∀ t, w ≠ .messages t []) (hes : w ≠ .hash []) :
    S.assigned f.type old w = w := by
  have hdefault : f.storedDefault S = f.type.initialValue S := by
    rcases hpresence with h | h <;> simp [FieldInfo.storedDefault, h]
  rw [hdefault] at hold
  revert hold
  generalize f.type = type at hw
  intro hold
  cases hw with
  | list vs =>
    obtain rfl := hold.resolve_left (by simp [PropertyType.isPureMessage])
    cases vs <;> simp [Schema.assigned, PropertyType.initialValue, sameList]
  | messageList ms =>
    obtain rfl := hold.resolve_left (by simp [PropertyType.isPureMessage])
    cases ms with
    | nil => exact absurd rfl (hms _)
    | cons m ms => simp [Schema.assigned, PropertyType.initialValue]
  | hash hkeys hnodup hvalues =>
    rename_i key value entries
    obtain rfl := hold.resolve_left (by simp [PropertyType.isPureMessage])
    cases entries with
    | nil => exact absurd rfl hes
    | cons e entries =>
      cases value <;> simp [Schema.assigned, PropertyType.initialValue, sameEntries]
  | custom content =>
    rename_i k isList
    obtain rfl := hold.resolve_left (by simp [PropertyType.isPureMessage])
    change (if S.isEqual (.custom k []) (.custom k content) then Value.custom k []
      else .custom k content) = .custom k content
    by_cases hequal : S.isEqual (.custom k []) (.custom k content) = true
    · rw [if_pos hequal, hcustom _ _ rfl hequal]
    · rw [if_neg hequal]
  | _ => rfl

/-- A property that is stored for the first time is found again, but for another zero in the value
of a map. -/
theorem exists_stored (hfresh : IsFresh S M i f) (hf : (S.propertyOrdering t).fields[i]? = some f)
    (hsame : SameElsewhere i f m M) (hplain : f.type.isPureMessage = false → m = M)
    (hnumber : ∀ j, (m.oneofState j).1 = (M.oneofState j).1) {v w : Value}
    (hconvert : S.convert f.type v = some w) (hw : w.IsOf f.type)
    (hcustom : SetterKeeps S w) (hms : ∀ t, w ≠ .messages t []) (hes : w ≠ .hash []) :
    ∃ M', S.setMessageProperty m i f v = (M', true) ∧ SameElsewhere i f M' M ∧
      (M'.messageProperty i f = w ∨ (M'.messageProperty i f).sameScalar w = true) := by
  have hfits := (S.propertyOrdering t).presence_fits f (List.mem_of_getElem? hf)
  have hpos := ((S.propertyOrdering t).numbers_bound f (List.mem_of_getElem? hf)).1
  suffices hstored : ∃ M', S.setMessageProperty m i f v = (M', true) ∧
      (M'.messageProperty i f = w ∨ (M'.messageProperty i f).sameScalar w = true) by
    obtain ⟨M', hset, hproperty⟩ := hstored
    have helsewhere := (sameElsewhere_setMessageProperty (S := S) m i f v).trans hsame
    rw [hset] at helsewhere
    exact ⟨M', hset, helsewhere, hproperty⟩
  unfold Schema.setMessageProperty
  simp only [hconvert]
  unfold IsFresh at hfresh
  have hset (hpresence : ∀ j, f.presence ≠ .oneof j) :=
    messageProperty_setMember (i := i) hpresence m w
  cases hpresence : f.presence with
  | oneof j =>
    simp only [hpresence] at hfresh ⊢
    have hne : (m.oneofState j).1 ≠ f.fieldNumber := by
      rw [hnumber, hfresh]
      exact Nat.ne_of_lt hpos
    rw [if_neg fun h => hne h.1]
    refine ⟨_, rfl, .inl ?_⟩
    simp [Message.messageProperty, hpresence, Message.oneofState, holdsField, isNull_of_isOf hw,
      Nat.pos_iff_ne_zero.mp hpos]
  | optional =>
    simp only [hpresence, FieldInfo.storedDefault] at hfresh ⊢
    have hpure : f.type.isPureMessage = false := by
      unfold FieldInfo.presenceFits at hfits
      cases htype : f.type <;> simp_all [PropertyType.isPureMessage]
    rw [hplain hpure, hfresh, if_neg (by simp [Schema.isEqual, Value.sameScalar])]
    exact ⟨_, rfl, .inl (by rw [← hplain hpure]; exact hset (by simp [hpresence]))⟩
  | mapEntry =>
    simp only
    split
    · rename_i hequal
      refine ⟨m, rfl, .inr ?_⟩
      have hread : m.messageProperty i f = m.member (.field i) := by
        simp [Message.messageProperty, hpresence]
      rw [hread]
      unfold Schema.isEqual at hequal
      split at hequal
      · rename_i h content h' content' hold
        unfold FieldInfo.presenceFits at hfits
        rw [hpresence] at hfits
        generalize f.type = type at hw hfits
        cases hw with
        | custom content => cases hfits
      · exact hequal
    · exact ⟨_, rfl, .inl (hset (by simp [hpresence]))⟩
  | implicit | required =>
    simp only [hpresence] at hfresh ⊢
    have hold : f.type.isPureMessage = true ∨ m.member (.field i) = f.storedDefault S := by
      cases hpure : f.type.isPureMessage with
      | true => exact .inl rfl
      | false => exact .inr (by rw [hplain hpure]; exact hfresh)
    rw [assigned_fresh hold (by simp [hpresence]) hw hcustom hms hes]
    exact ⟨_, rfl, .inl (hset (by simp [hpresence]))⟩

/-! ## The fields of a property -/

variable (env S keep) in
/-- From the fields that were written for a property the decoder makes a property of the same
content; nothing is written for a default. -/
structure Rebuilt (f : FieldInfo) (value : Value) (xs : List WireField) : Prop where
  fields : ∀ x ∈ xs, x.Complete env ∧ x.fieldNumber = f.fieldNumber
  elided : xs = [] → f.presence ≠ .mapEntry ∧ value.Same S (f.storedDefault S)
  turned : xs ≠ [] → ∀ v₀, IsInitial S f v₀ → ∃ entry v w,
    TurnsAll env S keep f xs none v₀ entry v ∧ S.convert f.type v = some w ∧ w.IsOf f.type ∧
      (∀ t, w ≠ .messages t []) ∧ w ≠ .hash [] ∧ value.Same S w

/-- The flag of an enumeration is the one of its type. -/
theorem fieldFlags_isEnum (f : FieldInfo) : f.fieldFlags.isEnum = f.type.isEnum := by
  unfold FieldInfo.fieldFlags
  split <;> rfl

/-- The flag for unpacked lists is set exactly for the lists that could be packed and are not. -/
theorem fieldFlags_nonPacked (hfits : f.presenceFits = true) :
    f.fieldFlags.nonPacked = (f.type.isPackable && !f.packed) := by
  unfold FieldInfo.fieldFlags
  unfold FieldInfo.presenceFits at hfits
  cases hpresence : f.presence <;> cases htype : f.type <;>
    simp_all [FieldInfo.getFlagForType, FieldInfo.collectFieldFlags, PropertyType.isPackable]

/-- Lists and maps have no presence of their own. -/
theorem implicit_of_isRepeated (hfits : f.presenceFits = true)
    (h : (f.type.isRepeated || f.type.isMap) = true) : f.presence = .implicit := by
  unfold FieldInfo.presenceFits at hfits
  generalize f.type = type at hfits h
  cases type with
  | custom k isList =>
    cases isList <;> cases hpresence : f.presence <;>
      simp_all [PropertyType.isRepeated, PropertyType.isMap]
  | _ => cases hpresence : f.presence <;> simp_all [PropertyType.isRepeated, PropertyType.isMap]

/-- An empty list is left out. -/
theorem not_mustSerialize_of_list (hfits : f.presenceFits = true) {k : ScalarKind}
    (htype : f.type = .list k) : mustSerializeDefaultValue f.fieldFlags = false := by
  have himplicit := implicit_of_isRepeated hfits (by rw [htype]; rfl)
  simp [mustSerializeDefaultValue, FieldInfo.fieldFlags, himplicit, FieldInfo.collectFieldFlags]

/-- Only an implicitly present field may be left out. -/
theorem implicit_of_not_mustSerialize (hfits : f.presenceFits = true)
    (h : mustSerializeDefaultValue f.fieldFlags = false) : f.presence = .implicit := by
  unfold FieldInfo.fieldFlags at h
  unfold FieldInfo.presenceFits at hfits
  cases hpresence : f.presence <;> cases htype : f.type <;>
    simp_all [mustSerializeDefaultValue, FieldInfo.getFlagForType, FieldInfo.collectFieldFlags,
      PropertyType.isMessage]

variable {order : HashOrder} {types : List Nat}
  {writes : List Nat → FieldInfo → MessageType → Message → WireField → Prop} {xs : List WireField}

/-- What is left out of a string is no mark. -/
theorem isEqual_unmarked {k : ScalarKind} {v : k.Carrier} (h : k.isEqual v k.zero = true) :
    k.isEqual (k.unmarked v) k.zero = true := by
  cases k
  case string =>
    obtain rfl := ScalarKind.eq_of_isEqual rfl h
    decide
  all_goals exact h

/-- A scalar is found again, a string without its mark. -/
theorem rebuilt_scalar (hf : (S.propertyOrdering t).fields[i]? = some f) {k : ScalarKind}
    (htype : f.type = .scalar k) {v : k.Carrier}
    (h : WritesProperty S order writes types f (.scalar ⟨k, v⟩) xs)
    (hsize : ∀ x ∈ xs, x.bytes.length ≤ maxByteArraySize) :
    Rebuilt env S keep f (.scalar ⟨k, k.unmarked v⟩) xs := by
  have hfits := (S.propertyOrdering t).presence_fits f (List.mem_of_getElem? hf)
  have hbound := (S.propertyOrdering t).numbers_bound f (List.mem_of_getElem? hf)
  have hxs : xs = if !k.isPresent v && !mustSerializeDefaultValue f.fieldFlags then []
      else [scalarField f.fieldNumber k v] := by
    simpa [WritesProperty, htype, WritesPlain, fieldFlags_isEnum, PropertyType.isEnum, scalarFields,
      integratedFields, fieldFlags_nonPacked hfits, PropertyType.isPackable, integratedIsPresent]
      using h
  by_cases hskip : (!k.isPresent v && !mustSerializeDefaultValue f.fieldFlags) = true
  · rw [if_pos hskip] at hxs
    subst hxs
    simp only [Bool.and_eq_true, Bool.not_eq_eq_eq_not, Bool.not_true, ScalarKind.isPresent,
      Bool.not_false] at hskip
    have himplicit := implicit_of_not_mustSerialize hfits hskip.2
    refine ⟨by simp, fun _ => ⟨by simp [himplicit], ?_⟩, fun hne => absurd rfl hne⟩
    simp only [FieldInfo.storedDefault, himplicit, htype, PropertyType.initialValue]
    exact .scalar (.inr (Scalar.isEqual_iff.mpr ⟨rfl, isEqual_unmarked hskip.1⟩))
  · rw [if_neg hskip] at hxs
    subst hxs
    obtain ⟨hcomplete, hvalue⟩ := @scalarField_complete env _ hbound.1 hbound.2 k v
      (hsize _ List.mem_cons_self)
    refine ⟨fun x hx => ?_, by simp, fun _ v₀ _ => ?_⟩
    · obtain rfl := List.mem_singleton.mp hx
      exact ⟨hcomplete, rfl⟩
    · have htaken := @Taken.scalar env (scalarField f.fieldNumber k v) k rfl v₀
      rw [hvalue, ← htype] at htaken
      refine ⟨none, _, .scalar ⟨k, k.unmarked v⟩, .cons (.plain htaken) (.nil _ _), ?_,
        by rw [htype]; exact .scalar _, by simp, by simp, .scalar (.refl _)⟩
      rw [htype]
      rfl

/-- The elements of a list that is not packed are taken in one by one. -/
theorem turnsAll_elements {k : ScalarKind} (htype : f.type = .list k) {n : Nat} (hpos : 0 < n)
    (hle : n ≤ 2 ^ 29 - 1) (vs acc : List k.Carrier)
    (hsize : ∀ v ∈ vs, (scalarField n k v).bytes.length ≤ maxByteArraySize) :
    TurnsAll env S keep f (vs.map (scalarField n k)) none (.scalars k acc) none
      (.scalars k (acc ++ vs.map k.unmarked)) := by
  induction vs generalizing acc with
  | nil =>
    rw [List.map_nil, List.map_nil, List.append_nil]
    exact .nil _ _
  | cons v vs ih =>
    have hvalue := (@scalarField_complete env n hpos hle k v (hsize v List.mem_cons_self)).2
    have htaken := @Taken.element env (scalarField n k v) k rfl acc
    rw [hvalue, ← htype] at htaken
    have hrest := ih (acc ++ [k.unmarked v]) fun w hw => hsize w (List.mem_cons_of_mem _ hw)
    rw [List.append_assoc, List.singleton_append] at hrest
    exact .cons (.plain htaken) hrest

/-- A list is found again, its strings without their marks. -/
theorem rebuilt_list (hf : (S.propertyOrdering t).fields[i]? = some f) {k : ScalarKind}
    (htype : f.type = .list k) {vs : List k.Carrier}
    (h : WritesProperty S order writes types f (.scalars k vs) xs)
    (hsize : ∀ x ∈ xs, x.bytes.length ≤ maxByteArraySize) :
    Rebuilt env S keep f (.scalars k (vs.map k.unmarked)) xs := by
  have hfits := (S.propertyOrdering t).presence_fits f (List.mem_of_getElem? hf)
  have hbound := (S.propertyOrdering t).numbers_bound f (List.mem_of_getElem? hf)
  have himplicit := implicit_of_isRepeated hfits (by rw [htype]; rfl)
  have hmust := not_mustSerialize_of_list hfits htype
  have hxs : xs = if vs.isEmpty then []
      else if k.isLengthDelimited || !f.packed then vs.map (scalarField f.fieldNumber k)
      else [packedListField f.fieldNumber k vs] := by
    cases hk : k.isLengthDelimited <;> cases hpacked : f.packed <;>
      simpa [WritesProperty, htype, WritesPlain, fieldFlags_isEnum, PropertyType.isEnum,
        scalarFields, integratedFields, fieldFlags_nonPacked hfits, PropertyType.isPackable,
        integratedIsPresent, hmust, hk, hpacked] using h
  cases vs with
  | nil =>
    obtain rfl : xs = [] := hxs
    refine ⟨by simp, fun _ => ⟨by simp [himplicit], ?_⟩, fun hne => absurd rfl hne⟩
    simp only [FieldInfo.storedDefault, himplicit, htype, PropertyType.initialValue]
    exact .scalars k []
  | cons v vs =>
    simp only [List.isEmpty_cons, Bool.false_eq_true, if_false] at hxs
    have hfound {entry v₀} (hturns : TurnsAll env S keep f xs none v₀ entry
        (.scalars k ((v :: vs).map k.unmarked))) :
        ∃ entry v' w, TurnsAll env S keep f xs none v₀ entry v' ∧ S.convert f.type v' = some w ∧
          w.IsOf f.type ∧ (∀ t, w ≠ .messages t []) ∧ w ≠ .hash [] ∧
            (Value.scalars k ((v :: vs).map k.unmarked)).Same S w :=
      ⟨entry, _, .scalars k _, hturns, by rw [htype]; rfl, by rw [htype]; exact .list _,
        by simp, by simp, .scalars k _⟩
    by_cases hwhole : (k.isLengthDelimited || !f.packed) = true
    · rw [if_pos hwhole] at hxs
      subst hxs
      have hsize' (w) (hw : w ∈ v :: vs) := hsize _ (List.mem_map_of_mem hw)
      refine ⟨fun x hx => ?_, by simp, fun _ v₀ hv₀ => ?_⟩
      · obtain ⟨w, hw, rfl⟩ := List.mem_map.mp hx
        exact ⟨(scalarField_complete hbound.1 hbound.2 k w (hsize' w hw)).1, rfl⟩
      · simp only [IsInitial, htype] at hv₀
        subst hv₀
        exact hfound (turnsAll_elements htype hbound.1 hbound.2 (v :: vs) [] hsize')
    · rw [if_neg hwhole] at hxs
      subst hxs
      have hk : k.isLengthDelimited = false := by simp_all
      have hexact : (v :: vs).map k.unmarked = v :: vs := by
        rw [List.map_congr_left fun w _ => ScalarKind.unmarked_eq_self hk w, List.map_id']
      rw [hexact] at hfound ⊢
      obtain ⟨hcomplete, length, payloads, hpayload, hlength, hshort, hpayloads, hvalues⟩ :=
        @packedListField_complete env _ hbound.1 hbound.2 k hk (v :: vs) (by simp)
          (hsize _ List.mem_cons_self)
      refine ⟨fun x hx => ?_, by simp, fun _ v₀ hv₀ => ?_⟩
      · obtain rfl := List.mem_singleton.mp hx
        exact ⟨hcomplete, rfl⟩
      · simp only [IsInitial, htype] at hv₀
        subst hv₀
        have htaken := @Taken.packed env (packedListField f.fieldNumber k (v :: vs)) k hk rfl length
          payloads hpayload hlength hshort hpayloads []
        rw [hvalues, ← htype] at htaken
        exact hfound (.cons (.plain htaken) (.nil _ _))

/-- What is written for an enumerator gives it back. -/
theorem rebuilt_enum (hf : (S.propertyOrdering t).fields[i]? = some f) {e : Nat}
    (htype : f.type = .enum e) (hzero : f.presence = .implicit → S.firstEnumerator e = 0)
    {v : BitVec 32} (h : WritesProperty S order writes types f (.enumerator e v) xs)
    (hsize : ∀ x ∈ xs, x.bytes.length ≤ maxByteArraySize) :
    Rebuilt env S keep f (.enumerator e v) xs := by
  have hfits := (S.propertyOrdering t).presence_fits f (List.mem_of_getElem? hf)
  have hbound := (S.propertyOrdering t).numbers_bound f (List.mem_of_getElem? hf)
  have hxs : xs = if !ScalarKind.isPresent .int64 (BitVec.signExtend 64 v) &&
      !mustSerializeDefaultValue f.fieldFlags then []
      else [scalarField f.fieldNumber .int64 (BitVec.signExtend 64 v)] := by
    simpa [WritesProperty, htype, WritesPlain, fieldFlags_isEnum, PropertyType.isEnum, enumFields,
      f.fieldFlags_repeated, PropertyType.isRepeated] using h
  by_cases hskip : (!ScalarKind.isPresent .int64 (BitVec.signExtend 64 v) &&
      !mustSerializeDefaultValue f.fieldFlags) = true
  · rw [if_pos hskip] at hxs
    subst hxs
    simp only [Bool.and_eq_true, Bool.not_eq_eq_eq_not, Bool.not_true, ScalarKind.isPresent,
      Bool.not_false] at hskip
    have himplicit := implicit_of_not_mustSerialize hfits hskip.2
    have hv : v = 0 := by
      have hnumber : BitVec.signExtend 64 v = (0 : BitVec 64) := of_decide_eq_true hskip.1
      rw [← setWidth_signExtend v, hnumber]
      rfl
    refine ⟨by simp, fun _ => ⟨by simp [himplicit], ?_⟩, fun hne => absurd rfl hne⟩
    simp only [FieldInfo.storedDefault, himplicit, htype, PropertyType.initialValue, hzero himplicit,
      hv]
    exact .enumerator e 0
  · rw [if_neg hskip] at hxs
    subst hxs
    obtain ⟨hcomplete, hvalue⟩ := @scalarField_complete env _ hbound.1 hbound.2 .int64
      (BitVec.signExtend 64 v) (hsize _ List.mem_cons_self)
    refine ⟨fun x hx => ?_, by simp, fun _ v₀ _ => ?_⟩
    · obtain rfl := List.mem_singleton.mp hx
      exact ⟨hcomplete, rfl⟩
    · have htaken := @Taken.enumerator env
        (scalarField f.fieldNumber .int64 (BitVec.signExtend 64 v)) e rfl v₀
      rw [hvalue, ← htype] at htaken
      refine ⟨none, _, .enumerator e v, .cons (.plain htaken) (.nil _ _), ?_,
        by rw [htype]; exact .enum v, by simp, by simp, .enumerator e v⟩
      rw [htype]
      exact congrArg (fun number => some (Value.enumerator e number)) (setWidth_signExtend v)

/-- Enumerators that are written one by one are appended to the list. -/
theorem turnsAll_enumerators {e : Nat} (htype : f.type = .enumList e) {n : Nat} (hpos : 0 < n)
    (hle : n ≤ 2 ^ 29 - 1) (vs acc : List (BitVec 32))
    (hsize : ∀ v ∈ vs, (scalarField n .int64 (BitVec.signExtend 64 v)).bytes.length ≤ maxByteArraySize) :
    TurnsAll env S keep f ((vs.map (BitVec.signExtend 64)).map (scalarField n .int64)) none
      (.enumerators e acc) none (.enumerators e (acc ++ vs)) := by
  induction vs generalizing acc with
  | nil =>
    rw [List.append_nil]
    exact .nil _ _
  | cons v vs ih =>
    have hvalue := (@scalarField_complete env n hpos hle .int64 (BitVec.signExtend 64 v)
      (hsize v List.mem_cons_self)).2.trans (ScalarKind.unmarked_eq_self rfl _)
    have htaken := @Taken.enumElement env (scalarField n .int64 (BitVec.signExtend 64 v)) e rfl e acc
    rw [hvalue, show BitVec.setWidth 32 (BitVec.signExtend 64 v) = v from setWidth_signExtend v,
      ← htype] at htaken
    have hrest := ih (acc ++ [v]) fun w hw => hsize w (List.mem_cons_of_mem _ hw)
    rw [List.append_assoc, List.singleton_append] at hrest
    exact .cons (.plain htaken) hrest

/-- What is written for a list of enumerators gives it back. -/
theorem rebuilt_enumList (hf : (S.propertyOrdering t).fields[i]? = some f) {e : Nat}
    (htype : f.type = .enumList e) {vs : List (BitVec 32)}
    (h : WritesProperty S order writes types f (.enumerators e vs) xs)
    (hsize : ∀ x ∈ xs, x.bytes.length ≤ maxByteArraySize) :
    Rebuilt env S keep f (.enumerators e vs) xs := by
  have hfits := (S.propertyOrdering t).presence_fits f (List.mem_of_getElem? hf)
  have hbound := (S.propertyOrdering t).numbers_bound f (List.mem_of_getElem? hf)
  have himplicit := implicit_of_isRepeated hfits (by rw [htype]; rfl)
  have hxs : xs = enumFields f (.enumerators e vs) := by
    simpa [WritesProperty, htype, WritesPlain, fieldFlags_isEnum, PropertyType.isEnum] using h
  unfold enumFields at hxs
  rw [f.fieldFlags_repeated, htype] at hxs
  simp only [PropertyType.isRepeated, if_true] at hxs
  cases vs with
  | nil =>
    obtain rfl : xs = [] := hxs
    refine ⟨by simp, fun _ => ⟨by simp [himplicit], ?_⟩, fun hne => absurd rfl hne⟩
    simp only [FieldInfo.storedDefault, himplicit, htype, PropertyType.initialValue]
    exact .enumerators e []
  | cons v vs =>
    have hne {ys : List WireField} (hys : ys ≠ []) (hnil : ys = []) :
        f.presence ≠ .mapEntry ∧ (Value.enumerators e (v :: vs)).Same S (f.storedDefault S) :=
      absurd hnil hys
    rw [if_neg (by simp), fieldFlags_nonPacked hfits, htype] at hxs
    have hfound {entry v₀} (hturns : TurnsAll env S keep f xs none v₀ entry (.enumerators e (v :: vs))) :
        ∃ entry v' w, TurnsAll env S keep f xs none v₀ entry v' ∧ S.convert f.type v' = some w ∧
          w.IsOf f.type ∧ (∀ t, w ≠ .messages t []) ∧ w ≠ .hash [] ∧
            (Value.enumerators e (v :: vs)).Same S w :=
      ⟨entry, _, .enumerators e (v :: vs), hturns, by rw [htype]; rfl, by rw [htype]; exact .enumList _,
        by simp, by simp, .enumerators e _⟩
    cases hpacked : f.packed with
    | false =>
      rw [hpacked] at hxs
      obtain rfl : xs = (List.map (BitVec.signExtend 64) (v :: vs)).map
        (scalarField f.fieldNumber .int64) := hxs
      have hsize' (w) (hw : w ∈ v :: vs) :=
        hsize _ (List.mem_map_of_mem (List.mem_map_of_mem hw))
      refine ⟨fun x hx => ?_, hne (List.cons_ne_nil _ _), fun _ v₀ hv₀ => ?_⟩
      · obtain ⟨number, hnumber, rfl⟩ := List.mem_map.mp hx
        obtain ⟨w, hw, rfl⟩ := List.mem_map.mp hnumber
        exact ⟨(scalarField_complete hbound.1 hbound.2 .int64 _ (hsize' w hw)).1, rfl⟩
      · simp only [IsInitial, htype] at hv₀
        subst hv₀
        exact hfound (turnsAll_enumerators htype hbound.1 hbound.2 (v :: vs) [] hsize')
    | true =>
      rw [hpacked] at hxs
      obtain rfl : xs =
        [packedListField f.fieldNumber .int64 (List.map (BitVec.signExtend 64) (v :: vs))] := hxs
      obtain ⟨hcomplete, length, payloads, hpayload, hlength, hshort, hpayloads, hvalues⟩ :=
        @packedListField_complete env _ hbound.1 hbound.2 .int64 rfl
          ((v :: vs).map (BitVec.signExtend 64)) (List.cons_ne_nil _ _) (hsize _ List.mem_cons_self)
      refine ⟨fun x hx => ?_, hne (List.cons_ne_nil _ _), fun _ v₀ hv₀ => ?_⟩
      · obtain rfl := List.mem_singleton.mp hx
        exact ⟨hcomplete, rfl⟩
      · simp only [IsInitial, htype] at hv₀
        subst hv₀
        have htaken := @Taken.enumPacked env
          (packedListField f.fieldNumber .int64 ((v :: vs).map (BitVec.signExtend 64))) e rfl length
          payloads hpayload hlength hshort hpayloads e []
        have hback : (payloads.map fun p => BitVec.setWidth 32 (scalarOf env .int64 p)) = v :: vs := by
          have hwidth : ((v :: vs).map (BitVec.signExtend 64)).map (BitVec.setWidth 32) = v :: vs := by
            rw [List.map_map]
            conv_rhs => rw [← List.map_id (v :: vs)]
            exact List.map_congr_left fun w _ => setWidth_signExtend w
          rw [← hwidth]
          have hmap : (payloads.map fun p => BitVec.setWidth 32 (scalarOf env .int64 p)) =
              (payloads.map (scalarOf env .int64)).map (BitVec.setWidth 32) :=
            (@List.map_map (BitVec 64) (BitVec 32) Bytes (BitVec.setWidth 32) (scalarOf env .int64)
              payloads).symm
          rw [hmap]
          exact congrArg (fun numbers : List (BitVec 64) => numbers.map (BitVec.setWidth 32)) hvalues
        rw [hback, ← htype] at htaken
        exact hfound (.cons (.plain htaken) (.nil _ _))

end

/-! ## Properties made of messages -/

/-- Every member of the second list has its partner in the first. -/
theorem exists_of_forall₂ {α β : Type} {R : α → β → Prop} {l : List α} {l' : List β} {b : β}
    (h : List.Forall₂ R l l') (hb : b ∈ l') : ∃ a ∈ l, R a b := by
  induction h with
  | nil => cases hb
  | cons hab _ ih =>
    rcases List.mem_cons.mp hb with rfl | hb
    · exact ⟨_, List.mem_cons_self, hab⟩
    · obtain ⟨a, ha, hab⟩ := ih hb
      exact ⟨a, List.mem_cons_of_mem _ ha, hab⟩


section

variable (env : Environment) (S : Schema) (keep : Bool)

/-- From these bytes the decoder makes a message of the same content. -/
def Rebuilds (t : MessageType) (m : Message) (content : Bytes) : Prop :=
  ∃ zs : List WireField, zs.flatMap WireField.bytes = content ∧ RequiredPresent S t zs ∧
    ∀ start, Blank S t start → ∃ r c sub, Decodes env S keep t zs ⟨{}, start⟩ r ∧
      storeCachedValue S t r.cache r.message = (c, sub, true) ∧ m.Same S t sub

/-- A message of its type that was written into a field is found again. -/
def RebuildsField (n : Nat) (t : MessageType) (m : Message) (x : WireField) : Prop :=
  ∃ content, x = messageField n content ∧ Rebuilds env S keep t m content

end

section

variable {env : Environment} {S : Schema} {keep : Bool} {t : MessageType} {i : Nat} {f : FieldInfo}
  {m : Message} {x : WireField} {xs : List WireField} {n : Nat}

/-- A field that rebuilds a message is complete, and decodes to the message from every blank one. -/
theorem RebuildsField.complete (h : RebuildsField env S keep n t m x) (hpos : 0 < n)
    (hle : n ≤ 2 ^ 29 - 1) (hsize : x.bytes.length ≤ maxSerializeMessageSizeLimit) :
    x.Complete env ∧ x.fieldNumber = n ∧
      ∀ start, Blank S t start → ∃ sub, Nested env S keep t x start sub ∧ m.Same S t sub := by
  obtain ⟨content, rfl, zs, rfl, hrequired, hzs⟩ := h
  have hshort : (zs.flatMap WireField.bytes).length ≤ maxSerializeMessageSizeLimit := by
    simp only [messageField, WireField.bytes, List.length_append] at hsize ⊢
    omega
  unfold maxSerializeMessageSizeLimit at hshort
  obtain ⟨hcomplete, length, hpayload, hvarint⟩ :=
    @messageField_complete env n hpos hle (zs.flatMap WireField.bytes) (by omega)
  refine ⟨hcomplete, rfl, fun start hstart => ?_⟩
  obtain ⟨r, c, sub, hdecodes, hstore, hsame⟩ := hzs start hstart
  exact ⟨sub, ⟨length, zs, r, c, hpayload, hvarint, by unfold maxByteArraySize; omega, hdecodes,
    hstore, hrequired⟩, hsame⟩

/-- A null value, for which nothing is written, is given back where the default is null. -/
theorem rebuilt_null (hpresence : f.presence ≠ .mapEntry)
    (hnull : f.storedDefault S = .null) : Rebuilt env S keep f .null [] :=
  ⟨by simp, fun _ => ⟨hpresence, by rw [hnull]; exact .null⟩, fun hne => absurd rfl hne⟩

/-- A sub-message is decoded into a new one. -/
theorem rebuilt_message (hf : (S.propertyOrdering t).fields[i]? = some f) {t' : Nat}
    (htype : f.type = .message t') (h : RebuildsField env S keep f.fieldNumber (.named t') m x)
    (hsize : x.bytes.length ≤ maxSerializeMessageSizeLimit) :
    Rebuilt env S keep f (.message t' m) [x] := by
  have hbound := (S.propertyOrdering t).numbers_bound f (List.mem_of_getElem? hf)
  obtain ⟨hcomplete, hnumber, hnested⟩ := h.complete hbound.1 hbound.2 hsize
  refine ⟨fun y hy => ?_, by simp, fun _ v₀ hv₀ => ?_⟩
  · obtain rfl := List.mem_singleton.mp hy
    exact ⟨hcomplete, hnumber⟩
  · simp only [IsInitial, htype] at hv₀
    subst hv₀
    obtain ⟨sub, hsub, hsame⟩ := hnested _ (blank_defaultMessage S (.named t'))
    exact ⟨none, .message t' sub, .message t' sub, .cons (.message htype hsub) (.nil _ _),
      by rw [htype]; rfl, by rw [htype]; exact .message sub, by simp, by simp,
      .message hsame.fields hsame.unknown⟩

/-- The messages of a list are decoded one by one. -/
theorem turnsAll_messages {t' : Nat} (htype : f.type = .messageList t') (hpos : 0 < f.fieldNumber)
    (hle : f.fieldNumber ≤ 2 ^ 29 - 1) {ms : List Message}
    (h : List.Forall₂ (RebuildsField env S keep f.fieldNumber (.named t')) ms xs)
    (hsize : ∀ x ∈ xs, x.bytes.length ≤ maxSerializeMessageSizeLimit) (acc : List Message) :
    ∃ subs, TurnsAll env S keep f xs none (.messages t' acc) none (.messages t' (acc ++ subs)) ∧
      List.Forall₂ (Message.Same S (.named t')) ms subs := by
  induction h generalizing acc with
  | nil =>
    refine ⟨[], ?_, .nil⟩
    rw [List.append_nil]
    exact .nil _ _
  | cons hm _ ih =>
    obtain ⟨-, -, hnested⟩ := hm.complete hpos hle (hsize _ List.mem_cons_self)
    obtain ⟨sub, hsub, hsame⟩ := hnested _ (blank_defaultMessage S (.named t'))
    obtain ⟨subs, hsubs, hall⟩ := ih (fun y hy => hsize y (List.mem_cons_of_mem _ hy)) (acc ++ [sub])
    rw [List.append_assoc, List.singleton_append] at hsubs
    exact ⟨sub :: subs, .cons (.messageList htype hsub) hsubs, .cons hsame hall⟩

/-- What is written for a list of messages gives it back. -/
theorem rebuilt_messageList (hf : (S.propertyOrdering t).fields[i]? = some f) {t' : Nat}
    (htype : f.type = .messageList t') {ms : List Message}
    (h : List.Forall₂ (RebuildsField env S keep f.fieldNumber (.named t')) ms xs)
    (hsize : ∀ x ∈ xs, x.bytes.length ≤ maxSerializeMessageSizeLimit) :
    Rebuilt env S keep f (.messages t' ms) xs := by
  have hfits := (S.propertyOrdering t).presence_fits f (List.mem_of_getElem? hf)
  have hbound := (S.propertyOrdering t).numbers_bound f (List.mem_of_getElem? hf)
  have himplicit := implicit_of_isRepeated hfits (by rw [htype]; rfl)
  refine ⟨fun x hx => ?_, fun hxs => ⟨by simp [himplicit], ?_⟩, fun hne v₀ hv₀ => ?_⟩
  · obtain ⟨m, -, hm⟩ := exists_of_forall₂ h hx
    obtain ⟨hcomplete, hnumber, -⟩ := hm.complete hbound.1 hbound.2 (hsize x hx)
    exact ⟨hcomplete, hnumber⟩
  · subst hxs
    cases h
    simp only [FieldInfo.storedDefault, himplicit, htype, PropertyType.initialValue]
    exact .messages rfl (by simp)
  · simp only [IsInitial, htype] at hv₀
    subst hv₀
    obtain ⟨subs, hsubs, hall⟩ := turnsAll_messages htype hbound.1 hbound.2 h hsize []
    refine ⟨none, .messages t' subs, .messages t' subs, hsubs, by rw [htype]; rfl,
      by rw [htype]; exact .messageList subs, fun u hu => ?_, by simp, .messages hall.length_eq ?_⟩
    · cases hu
      cases hall
      cases h
      exact hne rfl
    · intro k m m' hm hm'
      obtain ⟨hk, rfl⟩ := List.getElem?_eq_some_iff.mp hm
      obtain ⟨hk', rfl⟩ := List.getElem?_eq_some_iff.mp hm'
      have hsame := hall.get hk hk'
      exact .message hsame.fields hsame.unknown

/-! ## Types with handlers -/

variable (S) in
/-- From messages of the content of those that a value is written as, the handler makes the value
again. -/
def GivesBack (handler : Handler) (content : List Message) : Prop :=
  ∀ objects, List.Forall₂ (Message.Same S handler.proxy) (handler.objects content) objects →
    objects.foldl (fun content object => handler.assign true object content) [] = content

/-- The proxy objects of a field with a handler are read one by one. -/
theorem turnsAll_proxies {k : Nat} {isList : Bool} {handler : Handler}
    (htype : f.type = .custom k isList) (hhandler : S.findHandler k = some handler)
    (hpos : 0 < f.fieldNumber) (hle : f.fieldNumber ≤ 2 ^ 29 - 1) {objects : List Message}
    (h : List.Forall₂ (RebuildsField env S keep f.fieldNumber handler.proxy) objects xs)
    (hsize : ∀ x ∈ xs, x.bytes.length ≤ maxSerializeMessageSizeLimit) (content : List Message) :
    ∃ subs, TurnsAll env S keep f xs none (.custom k content) none
        (.custom k (subs.foldl (fun content object => handler.assign true object content) content)) ∧
      List.Forall₂ (Message.Same S handler.proxy) objects subs := by
  induction h generalizing content with
  | nil => exact ⟨[], .nil _ _, .nil⟩
  | cons hm _ ih =>
    obtain ⟨-, -, hnested⟩ := hm.complete hpos hle (hsize _ List.mem_cons_self)
    obtain ⟨sub, hsub, hsame⟩ := hnested _ (blank_defaultMessage S handler.proxy)
    obtain ⟨subs, hsubs, hall⟩ := ih (fun y hy => hsize y (List.mem_cons_of_mem _ hy))
      (handler.assign true sub content)
    have hfound : S.handlerOf f.type = some handler := by
      rw [htype]
      exact hhandler
    exact ⟨sub :: subs, .cons (.custom hfound hsub) hsubs, .cons hsame hall⟩

/-- A value that is written as other messages is made of these again. -/
theorem rebuilt_custom (hf : (S.propertyOrdering t).fields[i]? = some f) {k : Nat} {isList : Bool}
    {handler : Handler} (htype : f.type = .custom k isList)
    (hhandler : S.findHandler k = some handler) {content : List Message}
    (hback : GivesBack S handler content)
    (hpresence : f.presence ≠ .implicit → handler.objects content ≠ [])
    (h : List.Forall₂ (RebuildsField env S keep f.fieldNumber handler.proxy)
      (handler.objects content) xs)
    (hsize : ∀ x ∈ xs, x.bytes.length ≤ maxSerializeMessageSizeLimit) :
    Rebuilt env S keep f (.custom k content) xs := by
  have hbound := (S.propertyOrdering t).numbers_bound f (List.mem_of_getElem? hf)
  refine ⟨fun x hx => ?_, fun hxs => ?_, fun _ v₀ hv₀ => ?_⟩
  · obtain ⟨m, -, hm⟩ := exists_of_forall₂ h hx
    obtain ⟨hcomplete, hnumber, -⟩ := hm.complete hbound.1 hbound.2 (hsize x hx)
    exact ⟨hcomplete, hnumber⟩
  · subst hxs
    have hnone : handler.objects content = [] := List.forall₂_nil_right_iff.mp h
    have himplicit : f.presence = .implicit := by
      by_contra hne
      exact hpresence hne hnone
    have hcontent : [] = content := hback [] (by rw [hnone]; exact .nil)
    refine ⟨by simp [himplicit], ?_⟩
    simp only [FieldInfo.storedDefault, himplicit, htype, PropertyType.initialValue, ← hcontent]
    exact .custom k []
  · simp only [IsInitial, htype] at hv₀
    subst hv₀
    obtain ⟨subs, hsubs, hall⟩ := turnsAll_proxies htype hhandler hbound.1 hbound.2 h hsize []
    rw [hback subs hall] at hsubs
    exact ⟨none, .custom k content, .custom k content, hsubs, by rw [htype]; rfl,
      by rw [htype]; exact .custom content, by simp, by simp, .custom k content⟩

/-! ## Maps -/

/-- An entry with a new key is put at the end of the map. -/
theorem hashEmplace_of_not_mem (entries : List (Scalar × Value)) {key : Scalar}
    (h : key ∉ entries.map Prod.fst) (value : Value) :
    hashEmplace entries key value = entries ++ [(key, value)] := by
  induction entries with
  | nil => rfl
  | cons e entries ih =>
    obtain ⟨k, v⟩ := e
    simp only [List.map_cons, List.mem_cons, not_or] at h
    rw [hashEmplace, if_neg fun heq => h.1 heq.symm, ih h.2, List.cons_append]

/-- What is the same as one of two equal scalars is the same as the other one. -/
theorem same_of_sameScalar {u v w : Value} (h : u.sameScalar v = true) (h' : u.Same S w) :
    v.Same S w := by
  cases u with
  | scalar a =>
    cases v with
    | scalar b =>
      cases h' with
      | scalar hc => exact .scalar ((Scalar.Same.symm (.inr h)).trans hc)
    | _ => cases h
  | enumerator e a =>
    cases v with
    | enumerator e' b =>
      simp only [Value.sameScalar, Bool.and_eq_true, beq_iff_eq] at h
      obtain ⟨rfl, rfl⟩ := h
      exact h'
    | _ => cases h
  | _ => cases v <;> cases h

/-- Values that are the same scalar have the same things equal to them. -/
theorem same_of_sameScalar_right {u v w : Value} (h : u.sameScalar v = true) (h' : w.Same S v) :
    w.Same S u := by
  cases u with
  | scalar a =>
    cases v with
    | scalar b =>
      cases h' with
      | scalar hc => exact .scalar (hc.trans (Scalar.Same.symm (.inr h)))
    | _ => cases h
  | enumerator e a =>
    cases v with
    | enumerator e' b =>
      simp only [Value.sameScalar, Bool.and_eq_true, beq_iff_eq] at h
      obtain ⟨rfl, rfl⟩ := h
      exact h'
    | _ => cases h
  | _ => cases v <;> cases h

/-- The entry object while it stands for an entry of a map. -/
structure StandsFor (e : Scalar × Value) (entry : Message) : Prop where
  key : entry.member (.field 0) = .scalar e.1
  value : entry.member (.field 1) = e.2 ∨ (entry.member (.field 1)).sameScalar e.2 = true
  unknown : entry.unknownEntries = []

/-- The entry object filled with a key and a value stands for that entry. -/
theorem standsFor_nextEntry {entry : Message} (h : entry.unknownEntries = []) (key : Scalar)
    (value : Value) : StandsFor (key, value) (entry.nextEntry key value) := by
  have hne : Member.field 0 ≠ Member.field 1 := by simp
  unfold Message.nextEntry
  simp only
  split
  · rename_i hequal
    exact ⟨Message.member_setMember_self entry _ _, .inr hequal, h⟩
  · refine ⟨?_, .inl (Message.member_setMember_self _ _ _), h⟩
    rw [Message.member_setMember_of_ne _ _ hne, Message.member_setMember_self]

/-- The entry objects of a map stand for its entries, one by one. -/
theorem standsFor_entryObjects (entries : List (Scalar × Value)) {entry : Message}
    (h : entry.unknownEntries = []) : List.Forall₂ StandsFor entries (entryObjects entry entries) := by
  induction entries generalizing entry with
  | nil => exact .nil
  | cons e entries ih =>
    obtain ⟨key, value⟩ := e
    have hstands := standsFor_nextEntry h key value
    exact .cons hstands (ih hstands.unknown)

/-- An entry of a map in another message of its content. -/
theorem StandsFor.found {key : ScalarKind} {value : MapValue} (hkey : key.isMapKey = true)
    {e : Scalar × Value} {entry sub : Message} (h : StandsFor e entry) (he : e.1.1 = key)
    (hvalue : e.2.IsOf (.ofMapValue value)) (hsame : entry.Same S (.mapEntry key value) sub) :
    entryKey key sub = e.1 ∧ e.2.Same S (S.entryValue value sub) := by
  have hfirst := hsame.fields 0 _ rfl
  have hsecond := hsame.fields 1 _ rfl
  simp only [Message.messageProperty] at hfirst hsecond
  rw [h.key] at hfirst
  have hsecond : e.2.Same S (sub.member (.field 1)) := by
    rcases h.value with heq | hequal
    · rwa [heq] at hsecond
    · exact same_of_sameScalar hequal hsecond
  constructor
  · unfold entryKey
    generalize sub.member (.field 0) = v at hfirst
    cases hfirst with
    | scalar hscalar => exact (hscalar.eq (by rw [he]; exact hkey)).symm
  · unfold Schema.entryValue
    cases value with
    | message t' =>
      simp only
      generalize sub.member (.field 1) = v at hsecond
      generalize e.2 = u at hvalue hsecond
      cases hvalue with
      | message m =>
        cases hsecond with
        | message hfields hunknown =>
          simp only [Schema.ensureMessage, if_true]
          exact .message hfields hunknown
    | _ => exact hsecond

/-- The entries of a map are decoded one by one. -/
theorem turnsAll_entries {key : ScalarKind} {value : MapValue} (hkey : key.isMapKey = true)
    (htype : f.type = .hash key value) (hpos : 0 < f.fieldNumber)
    (hle : f.fieldNumber ≤ 2 ^ 29 - 1) {entries : List (Scalar × Value)} {objects : List Message}
    (hentries : ∀ e ∈ entries, e.1.1 = key ∧ e.2.IsOf (.ofMapValue value))
    (hstands : List.Forall₂ StandsFor entries objects)
    (h : List.Forall₂ (RebuildsField env S keep f.fieldNumber (.mapEntry key value)) objects xs)
    (hsize : ∀ x ∈ xs, x.bytes.length ≤ maxSerializeMessageSizeLimit) (entry : Option Message)
    (acc : List (Scalar × Value)) (hnodup : ((acc ++ entries).map Prod.fst).Nodup) :
    ∃ entry' out, TurnsAll env S keep f xs entry (.hash acc) entry' (.hash (acc ++ out)) ∧
      List.Forall₂ (fun e e' : Scalar × Value => e.1 = e'.1 ∧ e.2.Same S e'.2) entries out := by
  induction hstands generalizing xs entry acc with
  | nil =>
    cases h
    refine ⟨entry, [], ?_, .nil⟩
    rw [List.append_nil]
    exact .nil _ _
  | cons hobject _ ih =>
    rename_i e object entries objects _
    cases h with
    | cons hm h =>
      rename_i x xs
      obtain ⟨-, -, hnested⟩ := hm.complete hpos hle (hsize _ List.mem_cons_self)
      obtain ⟨sub, hsub, hsame⟩ := hnested _ (blank_addNext key value entry)
      obtain ⟨he, hvalue⟩ := hentries e List.mem_cons_self
      obtain ⟨hfound, hfound'⟩ := hobject.found hkey he hvalue hsame
      have hnotMem : entryKey key sub ∉ acc.map Prod.fst := by
        rw [hfound]
        intro hmem
        rw [List.map_append, List.map_cons, List.nodup_append] at hnodup
        exact hnodup.2.2 _ hmem _ List.mem_cons_self rfl
      have hstep : Turns env S keep x f entry (.hash acc) (some sub)
          (.hash (acc ++ [(e.1, S.entryValue value sub)])) := by
        have hturns := @Turns.entry env S keep x f entry key value acc sub htype hsub
        rwa [hashEmplace_of_not_mem acc hnotMem, hfound] at hturns
      obtain ⟨entry', out, hrest, hall⟩ := ih (fun e' he' => hentries e' (List.mem_cons_of_mem _ he')) h
        (fun y hy => hsize y (List.mem_cons_of_mem _ hy)) (some sub)
        (acc ++ [(e.1, S.entryValue value sub)]) (by simpa using hnodup)
      rw [List.append_assoc, List.singleton_append] at hrest
      exact ⟨entry', _, .cons hstep hrest, .cons ⟨rfl, hfound'⟩ hall⟩

/-- Entries that agree in the keys have the same keys in order. -/
theorem map_fst_of_forall₂ {P : Scalar × Value → Scalar × Value → Prop}
    {entries entries' : List (Scalar × Value)}
    (h : List.Forall₂ (fun e e' => e.1 = e'.1 ∧ P e e') entries entries') :
    entries.map Prod.fst = entries'.map Prod.fst := by
  induction h with
  | nil => rfl
  | cons he _ ih => rw [List.map_cons, List.map_cons, he.1, ih]

/-- A value that says the same has the same type. -/
theorem isOf_of_same {value : MapValue} {v w : Value} (h : v.IsOf (.ofMapValue value))
    (h' : v.Same S w) : w.IsOf (.ofMapValue value) := by
  cases value with
  | scalar k =>
    cases h with
    | scalar a =>
      cases h' with
      | scalar hscalar =>
        rename_i b
        obtain ⟨k', b⟩ := b
        obtain rfl : k = k' := by
          rcases hscalar with heq | hequal
          · exact congrArg Sigma.fst heq
          · exact (Scalar.isEqual_iff.mp hequal).1
        exact .scalar b
  | enum e =>
    cases h with
    | enum a =>
      cases h' with
      | enumerator => exact .enum a
  | message t' =>
    cases h with
    | message m =>
      cases h' with
      | message => exact .message _

/-- The same scalar has the same type. -/
theorem isOf_of_sameScalar {type : PropertyType} {u v : Value} (h : u.sameScalar v = true)
    (hv : v.IsOf type) : u.IsOf type := by
  cases hv with
  | scalar b =>
    cases u with
    | scalar a =>
      obtain ⟨k, a⟩ := a
      obtain ⟨hk, -⟩ := Scalar.isEqual_iff.mp h
      obtain rfl : k = _ := hk
      exact .scalar a
    | _ => cases h
  | enum b =>
    cases u with
    | enumerator e a =>
      simp only [Value.sameScalar, Bool.and_eq_true, beq_iff_eq] at h
      obtain ⟨rfl, rfl⟩ := h
      exact .enum a
    | _ => cases h
  | _ => cases u <;> cases h

/-- What is written for a map gives its entries back. -/
theorem rebuilt_hash (order : HashOrder) (hf : (S.propertyOrdering t).fields[i]? = some f)
    {key : ScalarKind} {value : MapValue} (hkey : key.isMapKey = true)
    (htype : f.type = .hash key value) {entries : List (Scalar × Value)}
    (hentries : ∀ e ∈ entries, e.1.1 = key ∧ e.2.IsOf (.ofMapValue value))
    (hnodup : (entries.map Prod.fst).Nodup)
    (h : List.Forall₂ (RebuildsField env S keep f.fieldNumber (.mapEntry key value))
      (entryObjects (S.defaultMessage (.mapEntry key value)) (order.entries entries)) xs)
    (hsize : ∀ x ∈ xs, x.bytes.length ≤ maxSerializeMessageSizeLimit) :
    Rebuilt env S keep f (.hash entries) xs := by
  have hfits := (S.propertyOrdering t).presence_fits f (List.mem_of_getElem? hf)
  have hbound := (S.propertyOrdering t).numbers_bound f (List.mem_of_getElem? hf)
  have himplicit := implicit_of_isRepeated hfits (by rw [htype]; rfl)
  have hperm := order.entries_perm entries
  have hstands : List.Forall₂ StandsFor (order.entries entries)
      (entryObjects (S.defaultMessage (.mapEntry key value)) (order.entries entries)) :=
    standsFor_entryObjects _ rfl
  refine ⟨fun x hx => ?_, fun hxs => ⟨by simp [himplicit], ?_⟩, fun hne v₀ hv₀ => ?_⟩
  · obtain ⟨m, -, hm⟩ := exists_of_forall₂ h hx
    obtain ⟨hcomplete, hnumber, -⟩ := hm.complete hbound.1 hbound.2 (hsize x hx)
    exact ⟨hcomplete, hnumber⟩
  · subst hxs
    have hlength : (order.entries entries).length = 0 := hstands.length_eq.trans h.length_eq
    obtain rfl : entries = [] := by
      rw [hperm.length_eq] at hlength
      exact List.eq_nil_of_length_eq_zero hlength
    simp only [FieldInfo.storedDefault, himplicit, htype, PropertyType.initialValue]
    exact .hash (.refl []) rfl (by simp)
  · simp only [IsInitial, htype] at hv₀
    subst hv₀
    obtain ⟨entry, out, hturns, hall⟩ := turnsAll_entries hkey htype hbound.1 hbound.2
      (fun e he => hentries e (hperm.mem_iff.mp he)) hstands h hsize none []
      (by simpa using (hperm.map Prod.fst).nodup_iff.mpr hnodup)
    have hkeys := map_fst_of_forall₂ hall
    obtain ⟨ordered, hordered, hout⟩ := List.perm_comp_forall₂ hperm.symm hall
    refine ⟨entry, .hash out, .hash out, hturns, by rw [htype]; rfl, ?_, by simp, ?_,
      .hash hout ?_ fun k e e' he he' => ?_⟩
    · rw [htype]
      refine .hash (fun e he => ?_) ?_ fun e he => ?_
      · obtain ⟨e', he', hsame⟩ := exists_of_forall₂ hall he
        rw [← hsame.1]
        exact (hentries e' (hperm.mem_iff.mp he')).1
      · rw [← hkeys]
        exact (hperm.map Prod.fst).nodup_iff.mpr hnodup
      · obtain ⟨e', he', hsame⟩ := exists_of_forall₂ hall he
        exact isOf_of_same (hentries e' (hperm.mem_iff.mp he')).2 hsame.2
    · rintro hnil
      obtain rfl := Value.hash.inj hnil
      have hlength := hall.length_eq
      rw [hstands.length_eq, h.length_eq] at hlength
      exact hne (List.eq_nil_of_length_eq_zero hlength)
    · exact map_fst_of_forall₂ hordered
    · obtain ⟨hk, rfl⟩ := List.getElem?_eq_some_iff.mp he
      obtain ⟨hk', rfl⟩ := List.getElem?_eq_some_iff.mp he'
      exact (hordered.get hk hk').2

end

end QtGrpc.Protobuf.Binary
