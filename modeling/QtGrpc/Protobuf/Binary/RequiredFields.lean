import QtGrpc.Protobuf.SerializerTermination
import QtGrpc.Protobuf.Binary.Retention
import Mathlib.Logic.Relation

/-!
# Required fields on the wire

The encoder writes a required field whatever its value, and a default message for a required message
that is not set. If the types of required messages form no cycle, each default message is one that
is not being written already, and no required field is missing in what was written.
-/

namespace QtGrpc.Protobuf.Binary

section

variable (env : Environment) (S : Schema) (keep : Bool)

/-- A message of the first type needs one of the second. -/
def Requires (t t' : Nat) : Prop :=
  ∃ f ∈ (S.message t).fields, f.type = .message t' ∧ f.fieldFlags.required = true

/-- A schema whose required messages form no cycle. -/
structure Satisfiable : Prop where
  own : ∀ t, ∀ f ∈ (S.message t).fields, f.presence ≠ .mapEntry
  custom : ∀ t, ∀ f ∈ (S.message t).fields, ∀ h isList, f.type ≠ .custom h isList
  acyclic : ∀ t, ¬Relation.TransGen (Requires S) t t

/-- The bytes are fields of a message type, the required ones among them. -/
def Composes (t : MessageType) (content : Bytes) : Prop :=
  ∃ zs : List WireField, zs.flatMap WireField.bytes = content ∧ (∀ z ∈ zs, Fits env S t z) ∧
    RequiredPresent S t zs

/-- The message that is written is a default one within those begun before, each of which needs
it. -/
def Begun (types : List Nat) (t : MessageType) (m : Message) : Prop :=
  ∀ u ∈ types, ∃ t', t = .named t' ∧ m = S.defaultMessage t ∧ Relation.ReflTransGen (Requires S) u t'

end

variable {env : Environment} {S : Schema} {keep : Bool} {t : MessageType} {i : Nat} {f : FieldInfo}
  {m : Message}

/-! ## Values that are no messages -/

/-- Each of the fields that are read takes a turn. -/
theorem TurnsAll.turns {xs : List WireField} {entry entry' : Option Message} {v v' : Value}
    (h : TurnsAll env S keep f xs entry v entry' v') {x : WireField} (hx : x ∈ xs) :
    ∃ entry v entry' v', Turns env S keep x f entry v entry' v' := by
  induction h with
  | nil => cases hx
  | cons hturns _ ih =>
    rcases List.mem_cons.mp hx with rfl | hx
    · exact ⟨_, _, _, _, hturns⟩
    · exact ih hx

/-- A turn of a field that is no message takes the value. -/
theorem Turns.taken {x : WireField} {entry entry' : Option Message} {v v' : Value}
    (h : Turns env S keep x f entry v entry' v') (hmessage : f.type.isMessage = false) :
    Taken env x f.type v v' := by
  cases h with
  | plain htaken => exact htaken
  | message htype | messageList htype | entry htype =>
    rw [htype] at hmessage
    cases hmessage
  | custom hhandler =>
    obtain ⟨k, isList, htype⟩ : ∃ k isList, f.type = .custom k isList := by
      unfold Schema.handlerOf at hhandler
      split at hhandler
      · exact ⟨_, _, by assumption⟩
      · cases hhandler
    rw [htype] at hmessage
    cases hmessage

/-- What a property is rebuilt from fits the type of the message. -/
theorem Rebuilt.fits {value v₀ : Value} {xs : List WireField} (h : Rebuilt env S keep f value xs)
    (hf : (S.propertyOrdering t).fields[i]? = some f) (hmessage : f.type.isMessage = false)
    (hv₀ : IsInitial S f v₀) {x : WireField} (hx : x ∈ xs) : Fits env S t x := by
  obtain ⟨entry, v, w, hturns, -⟩ := h.turned (List.ne_nil_of_mem hx) v₀ hv₀
  obtain ⟨_, _, _, _, hx'⟩ := hturns.turns hx
  obtain ⟨hcomplete, hnumber⟩ := h.fields x hx
  refine .plain hcomplete ?_ hf (hx'.taken hmessage)
  rw [hnumber]
  exact indexOfFieldNumber_of_getElem? hf

/-! ## Default messages -/

/-- A new message of a satisfiable schema is valid. -/
theorem valid_defaultMessage (hS : Satisfiable S) (t : Nat) :
    (S.defaultMessage (.named t)).Valid S (.named t) := by
  refine ⟨fun i f hf => ?_, List.nodup_nil, fun g hg => by cases hg⟩
  have hmem : f ∈ (S.message t).fields := List.mem_of_getElem? hf
  have hmember : (S.defaultMessage (.named t)).member (.field i) = f.storedDefault S := by
    simp [Schema.defaultMessage, Message.member, hf]
  unfold Message.messageProperty
  split
  · rename_i j hpresence
    exact .inr ⟨ite_self _, by simp [FieldInfo.mayBeUnset, hpresence]⟩
  · rename_i honeof
    rw [hmember]
    have hown := hS.own t f hmem
    have hcustom := hS.custom t f hmem
    unfold FieldInfo.storedDefault FieldInfo.mayBeUnset
    cases hpresence : f.presence with
    | optional => exact .inr ⟨rfl, rfl⟩
    | oneof j => exact (honeof j hpresence).elim
    | mapEntry => exact (hown hpresence).elim
    | implicit | required =>
      cases htype : f.type with
      | scalar k => exact .inl (.scalar _)
      | list k => exact .inl (.list _)
      | enum e => exact .inl (.enum _)
      | enumList e => exact .inl (.enumList _)
      | message t' => exact .inr ⟨rfl, rfl⟩
      | messageList t' => exact .inl (.messageList _)
      | hash key value => exact .inl (.hash (by simp) (by simp) (by simp))
      | custom h isList => exact (hcustom h isList htype).elim

/-- A property of a default message is unset or made up for its type. -/
theorem messageProperty_defaultMessage (S : Schema) (t : MessageType) (i : Nat) (f : FieldInfo) :
    (S.defaultMessage t).messageProperty i f = .null ∨
      (∃ e, (S.defaultMessage t).messageProperty i f = .enumerator e 0) ∨
        ∃ type, (S.defaultMessage t).messageProperty i f = PropertyType.initialValue S type := by
  unfold Message.messageProperty
  split
  · left
    exact ite_self _
  · simp only [Schema.defaultMessage, Message.member]
    cases (S.propertyOrdering t).fields[i]? with
    | none => exact .inl rfl
    | some g =>
      simp only [Option.map_some, Option.getD_some, FieldInfo.storedDefault]
      split
      · exact .inl rfl
      · exact .inl rfl
      · exact .inr (.inl ⟨_, rfl⟩)
      · exact .inr (.inr ⟨_, rfl⟩)

/-- Nothing is within a default message. -/
theorem not_contains_defaultMessage (S : Schema) (t : MessageType) {i : Nat} {f : FieldInfo}
    (sub : Message) : ¬((S.defaultMessage t).messageProperty i f).Contains sub := by
  intro h
  rcases messageProperty_defaultMessage S t i f with heq | ⟨e, heq⟩ | ⟨type, heq⟩
  · rw [heq] at h
    cases h
  · rw [heq] at h
    cases h
  · rw [heq] at h
    cases type <;> cases h <;> simp_all

/-- A new message has no map entries. -/
theorem hash_defaultMessage {t : MessageType} {i : Nat} {f : FieldInfo}
    {entries : List (Scalar × Value)}
    (h : (S.defaultMessage t).messageProperty i f = .hash entries) : entries = [] := by
  rcases messageProperty_defaultMessage S t i f with heq | ⟨e, heq⟩ | ⟨type, heq⟩
  · rw [heq] at h
    cases h
  · rw [heq] at h
    cases h
  · rw [heq] at h
    cases type <;> cases h
    rfl

/-- A new message of a satisfiable schema can be recovered. -/
theorem recoverable_defaultMessage (hS : Satisfiable S) (t : Nat) :
    Recoverable env S keep (.named t) (S.defaultMessage (.named t)) := by
  intro u n h
  have hnone {i : Nat} {f : FieldInfo} {v : Value}
      (hv : (S.defaultMessage (.named t)).messageProperty i f = v) (sub : Message) :
      ¬v.Contains sub := by
    rw [← hv]
    exact not_contains_defaultMessage S (.named t) sub
  cases h with
  | self => exact ⟨valid_defaultMessage hS t, fun g hg => by cases hg⟩
  | message hf hv _ => exact (hnone hv _ (.message _ _)).elim
  | element hf hv hm _ => exact (hnone hv _ (.messages hm)).elim
  | value hf hv hm _ => exact (hnone hv _ (.entry hm (.message _ _))).elim

/-! ## Begun default messages -/

/-- Where no type is open, no default message is begun. -/
theorem begun_nil (t : MessageType) (m : Message) : Begun S [] t m := fun _ hu => by cases hu

/-- No message of the given type is begun if this one needs it. -/
theorem Begun.not_mem (hS : Satisfiable S) {types : List Nat} (h : Begun S types t m)
    (hf : f ∈ (S.propertyOrdering t).fields) {t' : Nat} (htype : f.type = .message t')
    (hrequired : f.fieldFlags.required = true) : t' ∉ types := by
  intro hmem
  obtain ⟨t'', rfl, -, hreaches⟩ := h t' hmem
  exact hS.acyclic t' (.tail' hreaches ⟨f, hf, htype, hrequired⟩)

/-- A map entry requires no field. -/
theorem required_eq_false_of_mapEntry {key : ScalarKind} {value : MapValue}
    (hf : f ∈ (S.propertyOrdering (.mapEntry key value)).fields) :
    f.fieldFlags.required = false := by
  simp only [Schema.propertyOrdering, MessageDescriptor.mapEntry, List.mem_cons, List.not_mem_nil,
    or_false] at hf
  rcases hf with rfl | rfl <;> rfl

/-- A default message for a required field that is not set is the next one. -/
theorem Begun.next {types : List Nat} (h : Begun S types t m)
    (hf : f ∈ (S.propertyOrdering t).fields) {t' : Nat} (htype : f.type = .message t')
    (hrequired : f.fieldFlags.required = true) :
    Begun S (types ++ [t']) (.named t') (S.defaultMessage (.named t')) := by
  cases t with
  | mapEntry key value =>
    rw [required_eq_false_of_mapEntry hf] at hrequired
    cases hrequired
  | named t =>
    intro u hu
    refine ⟨t', rfl, rfl, ?_⟩
    rcases List.mem_append.mp hu with hu | hu
    · obtain ⟨_, heq, -, hreaches⟩ := h u hu
      cases heq
      exact hreaches.tail ⟨f, hf, htype, hrequired⟩
    · obtain rfl := List.mem_singleton.mp hu
      exact .refl

/-- A message with messages in it is no default message. -/
theorem Begun.contained {types : List Nat} (h : Begun S types t m) {sub : Message}
    (hsub : (m.messageProperty i f).Contains sub) (t' : MessageType) (m' : Message) :
    Begun S types t' m' := by
  intro u hu
  obtain ⟨_, -, hm, -⟩ := h u hu
  rw [hm] at hsub
  exact (not_contains_defaultMessage S t sub hsub).elim

/-- The messages in a map's entries are begun with the message. -/
theorem Begun.entry {types : List Nat} (h : Begun S types t m) {entries : List (Scalar × Value)}
    (hv : m.messageProperty i f = .hash entries) {e : Scalar × Value} (he : e ∈ entries)
    (t' : MessageType) (m' : Message) : Begun S types t' m' := by
  intro u hu
  obtain ⟨_, -, hm, -⟩ := h u hu
  rw [hm] at hv
  rw [hash_defaultMessage hv] at he
  cases he

/-! ## One property -/

section

variable {order : HashOrder} {types : List Nat}
  {writes : List Nat → FieldInfo → MessageType → Message → WireField → Prop} {xs : List WireField}

/-- A message written into a field. -/
theorem fits_messageField (hf : (S.propertyOrdering t).fields[i]? = some f) {t' : MessageType}
    (htype : contentType S f.type = some t') {content : Bytes} (h : Composes env S t' content)
    (hsize : (messageField f.fieldNumber content).bytes.length ≤ maxSerializeMessageSizeLimit) :
    Fits env S t (messageField f.fieldNumber content) := by
  have hbound := (S.propertyOrdering t).numbers_bound f (List.mem_of_getElem? hf)
  obtain ⟨zs, rfl, hfits, hrequired⟩ := h
  have hshort : (zs.flatMap WireField.bytes).length ≤ maxSerializeMessageSizeLimit := by
    simp only [messageField, WireField.bytes, List.length_append] at hsize ⊢
    omega
  unfold maxSerializeMessageSizeLimit at hshort
  obtain ⟨hcomplete, length, hpayload, hvarint⟩ :=
    @messageField_complete env f.fieldNumber hbound.1 hbound.2 (zs.flatMap WireField.bytes) (by omega)
  exact .message hcomplete (indexOfFieldNumber_of_getElem? hf) hf htype hpayload hvarint
    (by unfold maxByteArraySize; omega) hfits hrequired

/-- An enumerator is written as a number of its own. -/
theorem fits_enum (hf : (S.propertyOrdering t).fields[i]? = some f) {e : Nat}
    (htype : f.type = .enum e) {v : BitVec 32}
    (h : WritesProperty S order writes types f (.enumerator e v) xs)
    (hsize : ∀ x ∈ xs, x.bytes.length ≤ maxByteArraySize) {x : WireField} (hx : x ∈ xs) :
    Fits env S t x := by
  have hbound := (S.propertyOrdering t).numbers_bound f (List.mem_of_getElem? hf)
  have hxs : xs = enumFields f (.enumerator e v) := by
    simpa [WritesProperty, htype, WritesPlain, fieldFlags_isEnum, PropertyType.isEnum] using h
  obtain rfl : x = scalarField f.fieldNumber .int64 (BitVec.signExtend 64 v) := by
    rw [hxs] at hx
    unfold enumFields at hx
    rw [f.fieldFlags_repeated, htype] at hx
    simp only [PropertyType.isRepeated, Bool.false_eq_true, if_false] at hx
    split at hx
    · cases hx
    · exact List.mem_singleton.mp hx
  have hcomplete := (@scalarField_complete env _ hbound.1 hbound.2 .int64 (BitVec.signExtend 64 v)
    (hsize _ hx)).1
  have htaken := @Taken.enumerator env (scalarField f.fieldNumber .int64 (BitVec.signExtend 64 v)) e
    rfl .null
  rw [← htype] at htaken
  exact .plain hcomplete (indexOfFieldNumber_of_getElem? hf) hf htaken

/-- Nothing is written for a null value that is no message. -/
theorem writesProperty_null (htype : ∀ t', f.type ≠ .message t')
    (h : WritesProperty S order writes types f .null xs) : xs = [] := by
  unfold WritesProperty at h
  split at h
  · rename_i t' heq _
    exact (htype t' heq).elim
  · exact h
  all_goals simp_all

/-- A field with the flag for required ones is a required field. -/
theorem presence_of_required (h : f.fieldFlags.required = true) : f.presence = .required := by
  unfold FieldInfo.fieldFlags at h
  cases hpresence : f.presence <;>
    simp_all [FieldInfo.getFlagForType, FieldInfo.collectFieldFlags]

/-- All that is written of a property fits, if this holds of the messages it is made of. -/
theorem WritesProperty.fits (hS : Satisfiable S) (hm : Recoverable env S keep t m)
    (hbegun : Begun S types t m) (hf : (S.propertyOrdering t).fields[i]? = some f)
    (hwrites : ∀ types u n x, Recoverable env S keep u n → Begun S types u n →
      writes types f u n x → x.bytes.length ≤ maxSerializeMessageSizeLimit →
      ∃ content, x = messageField f.fieldNumber content ∧ Composes env S u content)
    (h : WritesProperty S order writes types f (m.messageProperty i f) xs)
    (hsize : ∀ x ∈ xs, x.bytes.length ≤ maxSerializeMessageSizeLimit) {x : WireField} (hx : x ∈ xs) :
    Fits env S t x := by
  have hmem := List.mem_of_getElem? hf
  have hmessage {u : MessageType} {n : Message} (htype : contentType S f.type = some u)
      (hn : Recoverable env S keep u n) {types : List Nat} (hn' : Begun S types u n) {y : WireField}
      (hy : y ∈ xs) (hw : writes types f u n y) : Fits env S t y := by
    obtain ⟨content, rfl, hcomposes⟩ := hwrites types u n y hn hn' hw (hsize y hy)
    exact fits_messageField hf htype hcomposes (hsize _ hy)
  have hsize' : ∀ x ∈ xs, x.bytes.length ≤ maxByteArraySize := fun x hx => by
    have hle := hsize x hx
    unfold maxSerializeMessageSizeLimit at hle
    unfold maxByteArraySize
    omega
  rcases hm.valid.fields i f hf with hvalue | ⟨hnull, hunset⟩
  · generalize hv : m.messageProperty i f = v at h hvalue
    generalize htype : f.type = type at hvalue
    have hplain {w : Value} (v₀ : Value) (hrebuilt : Rebuilt env S keep f w xs)
        (hne : f.type.isMessage = false) (hv₀ : IsInitial S f v₀) : Fits env S t x :=
      hrebuilt.fits hf hne hv₀ hx
    cases hvalue with
    | scalar v =>
      exact hplain .null (rebuilt_scalar hf htype h hsize') (by rw [htype]; rfl)
        (by simp only [IsInitial, htype])
    | list vs =>
      rename_i k
      exact hplain (.scalars k []) (rebuilt_list hf htype h hsize') (by rw [htype]; rfl)
        (by simp only [IsInitial, htype])
    | enum v => exact fits_enum hf htype h hsize' hx
    | enumList vs =>
      rename_i e
      exact hplain (.enumerators e []) (rebuilt_enumList hf htype h hsize') (by rw [htype]; rfl)
        (by simp only [IsInitial, htype])
    | message m' =>
      simp only [WritesProperty, htype] at h
      obtain ⟨y, rfl, hy⟩ := h
      obtain rfl := List.mem_singleton.mp hx
      exact hmessage (by rw [htype]; rfl) (Throughout.message hm hf hv)
        (hbegun.contained (hv ▸ Value.Contains.message _ m') _ _) hx hy
    | messageList ms =>
      simp only [WritesProperty, htype] at h
      obtain ⟨m', hm', hy⟩ := exists_of_forall₂ h hx
      exact hmessage (by rw [htype]; rfl) (Throughout.element hm hf hv hm')
        (hbegun.contained (hv ▸ Value.Contains.messages hm') _ _) hx hy
    | hash hkeys hnodup hvalues =>
      rename_i key value entries
      simp only [WritesProperty, htype] at h
      obtain ⟨entry, hentry, hy⟩ := exists_of_forall₂ h hx
      have hstands : List.Forall₂ StandsFor (order.entries entries)
          (entryObjects (S.defaultMessage (.mapEntry key value)) (order.entries entries)) :=
        standsFor_entryObjects _ rfl
      obtain ⟨e, he, hstands⟩ := exists_of_forall₂ hstands hentry
      have he := (order.entries_perm entries).mem_iff.mp he
      exact hmessage (by rw [htype]; rfl)
        (hm.standsFor hf hv he (hkeys e he) (hvalues e he) hstands) (hbegun.entry hv he _ _) hx hy
    | custom content =>
      rcases Ordinary.field_cases hmem with ⟨t', hmem'⟩ | ⟨-, hcustom, -⟩
      · exact (hS.custom t' f hmem' _ _ htype).elim
      · exact (hcustom _ _ htype).elim
  · rw [hnull] at h
    by_cases htype : ∃ t', f.type = .message t'
    · obtain ⟨t', htype⟩ := htype
      simp only [WritesProperty, htype] at h
      split at h
      · rename_i hrequired
        obtain ⟨y, rfl, hy⟩ := h
        obtain rfl := List.mem_singleton.mp hx
        exact hmessage (by rw [htype]; rfl) (recoverable_defaultMessage hS t')
          (hbegun.next hmem htype hrequired.1) hx hy
      · rw [h] at hx
        cases hx
    · rw [writesProperty_null (fun t' heq => htype ⟨t', heq⟩) h] at hx
      cases hx

/-- A required field is written. -/
theorem WritesProperty.ne_nil (hm : m.Valid S t)
    (hbegun : m.messageProperty i f = .null → ∀ t', f.type = .message t' → t' ∉ types)
    (hf : (S.propertyOrdering t).fields[i]? = some f) (hrequired : f.fieldFlags.required = true)
    (hcustom : ∀ k content, m.messageProperty i f = .custom k content →
      ∃ handler, S.findHandler k = some handler ∧ handler.objects content ≠ [])
    (h : WritesProperty S order writes types f (m.messageProperty i f) xs) : xs ≠ [] := by
  have hfits' := (S.propertyOrdering t).presence_fits f (List.mem_of_getElem? hf)
  have hfits := hfits'
  have hpresence := presence_of_required hrequired
  have hmust : mustSerializeDefaultValue f.fieldFlags = true := by
    simp [mustSerializeDefaultValue, hrequired]
  unfold FieldInfo.presenceFits at hfits
  rw [hpresence] at hfits
  rcases hm.fields i f hf with hvalue | ⟨hnull, hunset⟩
  · generalize m.messageProperty i f = v at h hvalue hcustom
    generalize htype : f.type = type at hvalue
    rw [htype] at hfits
    cases hvalue with
    | scalar v =>
      rename_i k
      obtain rfl : xs = [scalarField f.fieldNumber k v] := by
        simpa [WritesProperty, htype, WritesPlain, fieldFlags_isEnum, PropertyType.isEnum,
          scalarFields, integratedFields, fieldFlags_nonPacked hfits', PropertyType.isPackable, hmust]
          using h
      simp
    | enum v =>
      obtain rfl : xs = enumFields f (.enumerator _ v) := by
        simpa [WritesProperty, htype, WritesPlain, fieldFlags_isEnum, PropertyType.isEnum] using h
      simp [enumFields, f.fieldFlags_repeated, htype, PropertyType.isRepeated, hmust]
    | message m' =>
      simp only [WritesProperty, htype] at h
      obtain ⟨y, rfl, -⟩ := h
      simp
    | custom content =>
      rename_i k isList
      obtain ⟨handler, hhandler, hne⟩ := hcustom k content rfl
      have hobjects : List.Forall₂ (writes types f handler.proxy) (handler.objects content) xs := by
        simpa [WritesProperty, htype, WritesPlain, fieldFlags_isEnum, PropertyType.isEnum,
          scalarFields, integratedFields, Schema.handlerOf, hhandler] using h
      rintro rfl
      exact hne (List.forall₂_nil_right_iff.mp hobjects)
    | _ => cases hfits
  · rw [hnull] at h
    simp only [FieldInfo.mayBeUnset, hpresence] at hunset
    cases htype : f.type with
    | message t' =>
      simp only [WritesProperty, htype] at h
      rw [if_pos ⟨hrequired, hbegun hnull t' htype⟩] at h
      obtain ⟨y, rfl, -⟩ := h
      simp
    | _ =>
      rw [htype] at hunset
      cases hunset

end

/-! ## Messages -/

/-- The fields that are written for a message are those of one. -/
theorem composes_of_written (hS : Satisfiable S) {order : HashOrder} (fuel : Nat) {types : List Nat}
    {xs : List WireField} (h : Written S order keep fuel types t m xs)
    (hm : Recoverable env S keep t m) (hbegun : Begun S types t m)
    (hsize : (xs.flatMap WireField.bytes ++ unknownBytes order keep m).length ≤
      maxSerializeMessageSizeLimit) :
    Composes env S t (xs.flatMap WireField.bytes ++ unknownBytes order keep m) := by
  induction fuel generalizing types t m xs with
  | zero => cases h
  | succ fuel ih =>
    obtain ⟨parts, rfl, hparts⟩ := h
    have hshort {part : List WireField} (hpart : part ∈ parts) {x : WireField} (hx : x ∈ part) :
        x.bytes.length ≤ maxSerializeMessageSizeLimit := by
      refine Nat.le_trans ?_ hsize
      rw [List.length_append]
      exact Nat.le_add_right_of_le
        ((List.sublist_flatten_of_mem (List.mem_map_of_mem
          (List.mem_flatten_of_mem hpart hx))).length_le)
    obtain ⟨us, hbytes, hus, -⟩ := hm.exists_unknown order
    refine ⟨parts.flatten ++ us, by rw [List.flatMap_append, hbytes], fun x hx => ?_, ?_⟩
    · rcases List.mem_append.mp hx with hx | hx
      · obtain ⟨part, hpart, hx⟩ := List.mem_flatten.mp hx
        obtain ⟨⟨f, i⟩, hf, hproperty⟩ := exists_of_forall₂ hparts hpart
        refine hproperty.fits hS hm hbegun (List.mk_mem_zipIdx_iff_getElem?.mp hf) ?_
          (fun y hy => hshort hpart hy) hx
        rintro types u n y hn hbegun ⟨ys, hys, rfl⟩ hysize
        refine ⟨_, rfl, ih hys hn hbegun ?_⟩
        simp only [messageField, WireField.bytes, List.length_append] at hysize ⊢
        omega
      · exact .unknown (hus x hx).1 (hus x hx).2
    · intro f hf hrequired
      obtain ⟨i, hi⟩ := List.getElem?_of_mem hf
      obtain ⟨part, hpart, hproperty⟩ := exists_of_forall₂ hparts.flip
        (List.mk_mem_zipIdx_iff_getElem?.mpr hi)
      have hcustom (k : Nat) (isList : Bool) : f.type ≠ .custom k isList := by
        rcases Ordinary.field_cases hf with ⟨t', hmem⟩ | ⟨-, hcustom, -⟩
        · exact hS.custom t' f hmem k isList
        · exact hcustom k isList
      have hplain := property_ne_custom hcustom hm.valid hi
      have hne : part ≠ [] := WritesProperty.ne_nil hm.valid
        (fun _ t' htype => hbegun.not_mem hS hf htype hrequired) hi hrequired
        (fun k content hv => absurd hv (hplain k content)) hproperty
      obtain ⟨x, hx⟩ := List.exists_mem_of_ne_nil part hne
      refine ⟨x, List.mem_append_left us (List.mem_flatten_of_mem hpart hx), ?_⟩
      refine (WritesProperty.writtenField hproperty (fun k vs hv => ?_)
        (fun _ _ _ _ hwrites => hwrites.writtenField) hx).fieldNumber
      rcases hm.valid.fields i f hi with hvalue | ⟨hnull, -⟩
      · rw [hv] at hvalue
        generalize htype : f.type = type at hvalue
        cases hvalue
        exact not_mustSerialize_of_list ((S.propertyOrdering t).presence_fits f hf) htype
      · rw [hv] at hnull
        cases hnull

/-- The fields were written within the default messages that had been begun before. -/
theorem written_within {order : HashOrder} {fuel : Nat} {d d' : SerializerPrivate} {data : Bytes}
    (h : d.serializeMessage order S fuel t m = (d', some data))
    (herror : d'.base.deserializer.lastError = .none) :
    ∃ xs, Written S order d.preserveUnknownFields fuel d.serializer.defaultMessageTypes t m xs ∧
      data = xs.flatMap WireField.bytes ++ unknownBytes order d.preserveUnknownFields m := by
  unfold SerializerPrivate.serializeMessage at h
  simp only at h
  split at h
  · cases h
  · rename_i x hx
    obtain ⟨xs, hxs, happends⟩ := serializeMessage_appends fuel hx
    have hresult : x.state.result = xs.flatMap WireField.bytes := happends.result
    split at h
    · cases h
      cases herror
    · cases h
      refine ⟨xs, hxs, ?_⟩
      rw [unknownBytes_eq, SerializerImpl.append, hresult]
      rfl

/-- What a serializer writes for a message without an error it accepts. -/
def AcceptsWritten (env : Environment) (order : HashOrder) (S : Schema) (d : SerializerPrivate)
    (t : MessageType) (m : Message) : Prop :=
  ∀ fuel d' data, d.serializeMessage order S fuel t m = (d', some data) →
    d'.base.deserializer.lastError = .none → ∀ fuel', data.length < fuel' →
      ∃ m', (d'.deserializeMessage env S fuel' t data).2 = (m', .returned true)

/-- If the required messages of a schema form no cycle, what is written for any message has every
required field at every level, whatever was left unset, and is accepted. -/
theorem serialize_accepted (env : Environment) (order : HashOrder) (S : Schema)
    (hS : Satisfiable S) (d : SerializerPrivate)
    (hlimit : d.base.effectiveMaximumInputSize = maxSerializeMessageSizeLimit)
    (hbegun : d.serializer.defaultMessageTypes = []) (t : MessageType) (m : Message)
    (hm : m.IsOf S t)
    (hentries : ∀ u n, Message.Holds S t m u n → EntriesComplete env d.preserveUnknownFields n) :
    AcceptsWritten env order S d t m := by
  intro fuel d' data h herror fuel' hfuel
  obtain ⟨hkeep, hlimit', hsize, -⟩ := written_of_serializeMessage h herror
  obtain ⟨xs, hxs, rfl⟩ := written_within h herror
  rw [hbegun] at hxs
  obtain ⟨zs, hbytes, hfits, hrequired⟩ := composes_of_written hS fuel hxs
    (fun u n hholds => ⟨hm u n hholds, hentries u n hholds⟩) (begun_nil t m) hsize
  rw [← hbytes] at hsize hfuel ⊢
  obtain ⟨-, m', ok, -, -, hresult, hok, -, -⟩ := exists_deserialized d' hfits
    (by rw [hlimit', hlimit]; exact hsize) hfuel
  rw [hok.mpr hrequired] at hresult
  exact ⟨m', hresult⟩

/-- A message type that requires one with a required number. -/
def orderSchema : Schema where
  message
    | 0 => ⟨"Order", [
        { fieldNumber := 1, jsonName := "customer", type := .message 1, presence := .required }],
        by decide, by decide, by decide⟩
    | 1 => ⟨"Customer", [
        { fieldNumber := 1, jsonName := "id", type := .scalar .int64, presence := .required }],
        by decide, by decide, by decide⟩
    | _ => .withoutFields "Empty"
  enumKeys _ := []
  findHandler _ := none
  typeName _ := ""

/-- The sample schema is satisfiable. -/
theorem satisfiable_order : Satisfiable orderSchema := by
  have hfield {t : Nat} {f : FieldInfo} (hf : f ∈ (orderSchema.message t).fields) :
      f.presence = .required ∧ (t = 0 ∧ f.type = .message 1 ∨ f.type = .scalar .int64) := by
    match t with
    | 0 =>
      obtain rfl := List.mem_singleton.mp hf
      exact ⟨rfl, .inl ⟨rfl, rfl⟩⟩
    | 1 =>
      obtain rfl := List.mem_singleton.mp hf
      exact ⟨rfl, .inr rfl⟩
    | _ + 2 => cases hf
  refine ⟨fun t f hf => by simp [(hfield hf).1], fun t f hf h isList => ?_, fun t hcycle => ?_⟩
  · rcases (hfield hf).2 with ⟨-, htype⟩ | htype <;> simp [htype]
  · have hless {a b : Nat} (h : Relation.TransGen (Requires orderSchema) a b) : a < b := by
      have hstep {a b : Nat} (h : Requires orderSchema a b) : a < b := by
        obtain ⟨f, hf, htype, -⟩ := h
        rcases (hfield hf).2 with ⟨rfl, htype'⟩ | htype'
        · rw [htype] at htype'
          cases htype'
          decide
        · rw [htype] at htype'
          cases htype'
      induction h with
      | single hab => exact hstep hab
      | tail _ hbc ih => exact ih.trans (hstep hbc)
    exact Nat.lt_irrefl t (hless hcycle)

/-- What is written for a new order is accepted. -/
theorem serialize_accepted_order :
    AcceptsWritten nullTerminated .ofInsertion orderSchema (.new {}) (.named 0)
      (orderSchema.defaultMessage (.named 0)) :=
  serialize_accepted nullTerminated .ofInsertion orderSchema satisfiable_order (.new {}) rfl rfl
    (.named 0) _
    (fun u n h => (@recoverable_defaultMessage nullTerminated orderSchema true satisfiable_order 0 u n
      h).1)
    (fun u n h => (recoverable_defaultMessage satisfiable_order 0 u n h).2)

end QtGrpc.Protobuf.Binary
