import QtGrpc.Protobuf.Shape
import QtGrpc.Protobuf.Binary.Acceptance
import QtGrpc.Protobuf.Binary.Reading

/-!
# Fields that fit a message type

A field of the wire format fits a message type that does not have it, and one whose field of that
number is read from its payload; the payload of a sub-message consists of such fields in turn and
has the required ones. The loop decodes any sequence of fitting fields without an error, and a
field it decodes leaves the lists of the other fields as they are.
-/

namespace QtGrpc.Protobuf.Binary

variable (env : Environment) (S : Schema)

/-- Each required field of a type is among the given ones. -/
def RequiredPresent (t : MessageType) (xs : List WireField) : Prop :=
  ∀ f ∈ (S.propertyOrdering t).fields, f.fieldFlags.required →
    ∃ x ∈ xs, x.fieldNumber = f.fieldNumber

/-- A complete field that can be decoded as one of a message type. -/
inductive Fits : MessageType → WireField → Prop where
  | unknown {t : MessageType} {x : WireField} (hx : x.Complete env)
      (hindex : (S.propertyOrdering t).indexOfFieldNumber x.fieldNumber = none) : Fits t x
  | plain {t : MessageType} {x : WireField} {i : Nat} {f : FieldInfo} {v v' : Value}
      (hx : x.Complete env)
      (hindex : (S.propertyOrdering t).indexOfFieldNumber x.fieldNumber = some i)
      (hfield : (S.propertyOrdering t).fields[i]? = some f)
      (htaken : Taken env x f.type v v') : Fits t x
  | message {t t' : MessageType} {x : WireField} {i : Nat} {f : FieldInfo} {length : Bytes}
      {xs : List WireField} (hx : x.Complete env)
      (hindex : (S.propertyOrdering t).indexOfFieldNumber x.fieldNumber = some i)
      (hfield : (S.propertyOrdering t).fields[i]? = some f)
      (htype : contentType S f.type = some t')
      (hpayload : x.payload = length ++ xs.flatMap WireField.bytes)
      (hlength : IsVarint env length (BitVec.ofNat 64 (xs.flatMap WireField.bytes).length))
      (hsize : (xs.flatMap WireField.bytes).length ≤ maxByteArraySize)
      (hfits : ∀ y ∈ xs, Fits t' y) (hrequired : RequiredPresent S t' xs) : Fits t x

variable {env S}

/-- A field that fits the message is complete. -/
theorem Fits.complete {t : MessageType} {x : WireField} (h : Fits env S t x) : x.Complete env := by
  cases h <;> assumption

/-- A value that a field was taken into suits the property's type. -/
theorem Taken.suits {x : WireField} {type : PropertyType} {v v' : Value}
    (h : Taken env x type v v') : v'.Suits type := by
  cases h with
  | scalar hwire => exact ⟨_, rfl⟩
  | packed => exact ⟨_, rfl⟩
  | element => exact ⟨_, rfl⟩
  | enumerator => exact .inr ⟨_, rfl⟩
  | enumPacked => exact ⟨_, _, rfl⟩
  | enumElement => exact ⟨_, _, rfl⟩

/-- What one property takes, every property of the type takes. -/
theorem Taken.of_suits {x : WireField} {type : PropertyType} {u u' v : Value}
    (h : Taken env x type u u') (hv : v.Suits type) : ∃ v', Taken env x type v v' := by
  cases h with
  | scalar hwire => exact ⟨_, .scalar hwire v⟩
  | packed hk hwire hpayload hlength hsize h vs =>
    obtain ⟨vs, rfl⟩ := hv
    exact ⟨_, .packed hk hwire hpayload hlength hsize h vs⟩
  | element hwire vs =>
    obtain ⟨vs, rfl⟩ := hv
    exact ⟨_, .element hwire vs⟩
  | enumerator hwire => exact ⟨_, .enumerator hwire v⟩
  | enumPacked hwire hpayload hlength hsize h e' vs =>
    obtain ⟨e', vs, rfl⟩ := hv
    exact ⟨_, .enumPacked hwire hpayload hlength hsize h e' vs⟩
  | enumElement hwire e' vs =>
    obtain ⟨e', vs, rfl⟩ := hv
    exact ⟨_, .enumElement hwire e' vs⟩

/-- A type that is no message is no single message either. -/
theorem isPureMessage_of_not_isMessage {type : PropertyType} (h : type.isMessage = false) :
    type.isPureMessage = false := by
  cases type <;> first | rfl | cases h

/-! ## The loop between two fields -/

/-- What the loop has gathered before a field. -/
structure LoopState where
  seen : List Nat
  cache : Cache
  deserializer : Deserializer
  message : Message

variable (env S) in
/-- Whatever the loop returns later is what it returns now. -/
def LoopState.Leads (t : MessageType) (n : Nat) (p q : LoopState) : Prop :=
  ∀ k result, Returns env S t q.seen q.cache q.deserializer q.message k result →
    Returns env S t p.seen p.cache p.deserializer p.message (k + n) result

/-- A state leads to itself on no bytes. -/
theorem LoopState.Leads.refl (t : MessageType) (p : LoopState) : p.Leads env S t 0 p :=
  fun _ _ h => h

/-- What leads on over one stretch of bytes and then over the next leads on over both. -/
theorem LoopState.Leads.trans {t : MessageType} {n n' : Nat} {p q r : LoopState}
    (h : p.Leads env S t n q) (h' : q.Leads env S t n' r) : p.Leads env S t (n' + n) r := by
  intro k result hresult
  rw [← Nat.add_assoc]
  exact h _ _ (h' _ _ hresult)

variable (S) in
/-- The decoder stands before some input, and the message only lacks the cached property. -/
structure LoopState.Ready (t : MessageType) (p : LoopState) (input tail : Bytes)
    (frames : List Int) : Prop where
  position : p.deserializer.At input tail frames
  pending : Pending S t p.cache p.message

/-- The content of a member of its own. -/
def LoopState.content (p : LoopState) (i : Nat) : Value := p.cache.content p.message i

/-- A list is left as it is, or what was read of it before is written. -/
def LoopState.Kept (S : Schema) (k : Nat) (g : FieldInfo) (p q : LoopState) : Prop :=
  q.content k = p.content k ∧ q.message.member (.field k) = p.message.member (.field k) ∨
    q.content k = p.cache.stored S p.message k g ∧
      q.message.member (.field k) = p.cache.stored S p.message k g

/-- What becomes of the loop's state at one field. -/
structure LoopState.Step (env : Environment) (S : Schema) (t : MessageType) (x : WireField)
    (p q : LoopState) : Prop where
  leads : p.Leads env S t x.bytes.length q
  it : q.deserializer.it = p.deserializer.it.advance x.bytes.length
  state : q.deserializer.state = p.deserializer.state
  noError : q.deserializer.lastError = p.deserializer.lastError
  pending : Pending S t q.cache q.message
  seen : q.seen = ((S.propertyOrdering t).indexOfFieldNumber x.fieldNumber).toList ++ p.seen
  content : ∀ k g, (S.propertyOrdering t).fields[k]? = some g → g.type.isPackable = true →
    (S.propertyOrdering t).indexOfFieldNumber x.fieldNumber ≠ some k → p.Kept S k g q

/-- After a field has been read, the loop is ready for what follows it. -/
theorem LoopState.Step.ready {t : MessageType} {x : WireField} {p q : LoopState}
    {input tail : Bytes} {frames : List Int} (h : p.Step env S t x q)
    (hp : p.Ready S t (x.bytes ++ input) tail frames) : q.Ready S t input tail frames :=
  ⟨hp.position.moved h.it h.state h.noError, h.pending⟩

section

variable {t : MessageType} {x : WireField} {p : LoopState} {input tail : Bytes}
  {frames : List Int}

/-- Keeping an unknown field changes no member. -/
theorem member_keep (d : Deserializer) (m : Message) : (d.keep m x).member = m.member := by
  unfold Deserializer.keep
  split <;> rfl

/-- A field the type does not have is skipped. -/
theorem step_unknown (hx : x.Complete env)
    (hindex : (S.propertyOrdering t).indexOfFieldNumber x.fieldNumber = none)
    (hp : p.Ready S t (x.bytes ++ input) tail frames) : ∃ q, p.Step env S t x q := by
  have hpos := hx.length_pos
  have hmember := member_keep (x := x) p.deserializer p.message
  refine ⟨⟨p.seen, p.cache, p.deserializer.past t x, p.deserializer.keep p.message x⟩, ?_⟩
  refine ⟨fun k result h => ?_, rfl, rfl, rfl, hp.pending.of_member_eq hmember, by rw [hindex]; rfl,
    fun k g _ _ _ => ?_⟩
  · exact (Returns.unknown hx hp.position hindex h).mono (by omega)
  · exact .inl ⟨by simp only [LoopState.content, Cache.content, hmember], by rw [hmember]⟩

variable (S) in
/-- What selecting a property does to the lists of a message. -/
def SelectsFrom (t : MessageType) (i : Nat) (cache : Cache) (m : Message) (c : Cache)
    (m₁ : Message) : Prop :=
  c = cache ∧ m₁ = m ∨
    cache.index ≠ some i ∧
    ∀ k g, (S.propertyOrdering t).fields[k]? = some g → g.type.isPackable = true →
      m₁.member (.field k) = cache.stored S m k g ∧ c.content m₁ k = cache.stored S m k g

/-- Where another property is selected, a list is kept. -/
theorem SelectsFrom.kept {i k : Nat} {g : FieldInfo} {c c' : Cache} {m₁ m₂ : Message}
    {seen : List Nat} {d : Deserializer} (h : SelectsFrom S t i p.cache p.message c m₁)
    (hg : (S.propertyOrdering t).fields[k]? = some g) (hpackable : g.type.isPackable = true)
    (hc : c.index = some i) (hc' : c'.index = some i) (hik : i ≠ k)
    (hother : m₂.member (.field k) = m₁.member (.field k)) : p.Kept S k g ⟨seen, c', d, m₂⟩ := by
  have hcontent : LoopState.content ⟨seen, c', d, m₂⟩ k = m₂.member (.field k) := by
    simp [LoopState.content, Cache.content, hc', hik]
  rcases h with ⟨rfl, rfl⟩ | ⟨-, h⟩
  · refine .inl ⟨?_, hother⟩
    rw [hcontent, hother]
    simp [LoopState.content, Cache.content, hc, hik]
  · have hstored := (h k g hg hpackable).1
    exact .inr ⟨by rw [hcontent, hother, hstored], by rw [← hstored]; exact hother⟩

/-- A property is read once it has been selected. -/
theorem step_selected {i : Nat} {f : FieldInfo} {c : Cache} {v' : Value} {m₁ : Message}
    (hx : x.Complete env)
    (hindex : (S.propertyOrdering t).indexOfFieldNumber x.fieldNumber = some i)
    (hfield : (S.propertyOrdering t).fields[i]? = some f)
    (hp : p.Ready S t (x.bytes ++ input) tail frames)
    (hselect : selectProperty S t i f p.cache p.message = (c, m₁, true)) (hc : c.index = some i)
    (hformed : ∀ y ≠ f.memberAt i, FormedAt S t m₁ y)
    (hcontent : SelectsFrom S t i p.cache p.message c m₁)
    (htaken : Taken env x f.type c.propertyValue v') :
    p.Step env S t x ⟨i :: p.seen, { c with propertyValue := v' }, p.deserializer.past t x, m₁⟩ := by
  have hpos := hx.length_pos
  have hpure := isPureMessage_of_not_isMessage htaken.isMessage
  refine ⟨fun k result h => ?_, rfl, rfl, rfl,
    .cached hc hfield (isProperty_of_suits htaken.suits hpure) hformed, by rw [hindex]; rfl,
    fun k g hg hpackable hne => ?_⟩
  · exact (Returns.taken hx hp.position hindex hfield hselect htaken h).mono (by omega)
  · have hik : i ≠ k := fun heq => hne (by rw [hindex, heq])
    exact hcontent.kept hg hpackable hc hc hik rfl

/-- A field that is neither a message nor a map is read into its property. -/
theorem step_plain {i : Nat} {f : FieldInfo} {u u' : Value} (hx : x.Complete env)
    (hindex : (S.propertyOrdering t).indexOfFieldNumber x.fieldNumber = some i)
    (hfield : (S.propertyOrdering t).fields[i]? = some f) (htaken : Taken env x f.type u u')
    (hp : p.Ready S t (x.bytes ++ input) tail frames) : ∃ q, p.Step env S t x q := by
  obtain ⟨c, m₁, hselect, hc, hproperty, hformed, hcontent⟩ :=
    selectProperty_spec hp.pending hfield
  obtain ⟨v', htaken⟩ := htaken.of_suits hproperty.suits
  exact ⟨_, step_selected hx hindex hfield hp hselect hc hformed hcontent htaken⟩

/-- A list of numbers or enumerators becomes what the payload makes of it. -/
theorem step_list {i : Nat} {f : FieldInfo} {v' : Value} (hx : x.Complete env)
    (hindex : (S.propertyOrdering t).indexOfFieldNumber x.fieldNumber = some i)
    (hfield : (S.propertyOrdering t).fields[i]? = some f) (hpackable : f.type.isPackable = true)
    (hp : p.Ready S t (x.bytes ++ input) tail frames)
    (htaken : Taken env x f.type (p.content i) v') :
    ∃ q, p.Step env S t x q ∧ q.content i = v' ∧
      q.message.member (.field i) = p.message.member (.field i) := by
  obtain ⟨c, m₁, hselect, hc, hproperty, hformed, hcontent⟩ :=
    selectProperty_spec hp.pending hfield
  have hboth : c.propertyValue = p.content i ∧
      m₁.member (.field i) = p.message.member (.field i) := by
    rcases hcontent with ⟨rfl, rfl⟩ | ⟨hother, h⟩
    · exact ⟨by simp [LoopState.content, Cache.content, hc], rfl⟩
    · obtain ⟨hbase, hread⟩ := h i f hfield hpackable
      rw [Cache.stored, if_neg hother] at hbase hread
      refine ⟨?_, hbase⟩
      rw [LoopState.content, Cache.content, if_neg hother, ← hread, Cache.content, if_pos hc]
  rw [← hboth.1] at htaken
  exact ⟨_, step_selected hx hindex hfield hp hselect hc hformed hcontent htaken,
    by simp [LoopState.content, Cache.content, hc], hboth.2⟩

/-- A property of a type with nested messages takes one in. -/
theorem exists_nests {i : Nat} {f : FieldInfo} {t' : MessageType} {c : Cache} {m : Message}
    (htype : contentType S f.type = some t') (hv : IsProperty S f c.propertyValue) :
    ∃ start next message, Nests S i f m c t' start next message ∧ WellFormed S t' start ∧
      ∀ sub, WellFormed S t' sub → (next sub).index = c.index ∧
        IsProperty S f (next sub).propertyValue ∧
          ∀ y ≠ f.memberAt i, (message sub).member y = m.member y := by
  have hsuits := hv.suits
  cases hf : f.type with
  | message n =>
    rw [hf] at htype hsuits
    cases htype
    obtain ⟨sub, hc⟩ := hsuits
    refine ⟨_, _, _, .message hf hc, hv.sub n sub hc, fun sub' hsub' =>
      ⟨rfl, isProperty_message hf hsub', fun y hy => ?_⟩⟩
    unfold Message.writeThrough
    unfold FieldInfo.memberAt at hy
    split <;> simp_all
  | messageList n =>
    rw [hf] at htype hsuits
    cases htype
    obtain ⟨t'', ms, hc⟩ := hsuits
    exact ⟨_, _, _, .messageList hf hc, defaultMessage_wellFormed S _, fun sub' _ =>
      ⟨rfl, isProperty_of_suits (by rw [hf]; exact ⟨_, _, rfl⟩) (by rw [hf]; rfl), fun _ _ => rfl⟩⟩
  | hash key value =>
    rw [hf] at htype hsuits
    cases htype
    obtain ⟨entries, hc⟩ := hsuits
    exact ⟨_, _, _, .entry hf hc, addNext_wellFormed key value _, fun sub' _ =>
      ⟨rfl, isProperty_of_suits (by rw [hf]; exact ⟨_, rfl⟩) (by rw [hf]; rfl), fun _ _ => rfl⟩⟩
  | custom h isList =>
    rw [hf] at htype hsuits
    obtain ⟨handler, hhandler, rfl⟩ := Option.map_eq_some_iff.mp htype
    obtain ⟨h', content, hc⟩ := hsuits
    exact ⟨_, _, _, .custom (by rw [hf]; exact hhandler) hc,
      defaultMessage_wellFormed S _, fun sub' _ =>
      ⟨rfl, isProperty_of_suits (by rw [hf]; exact ⟨_, _, rfl⟩) (by rw [hf]; rfl), fun _ _ => rfl⟩⟩
  | _ =>
    rw [hf] at htype
    cases htype

/-- A field with a nested message is decoded if the nested one is. -/
theorem step_message {i : Nat} {f : FieldInfo} {t' : MessageType} {length content : Bytes}
    (hx : x.Complete env)
    (hindex : (S.propertyOrdering t).indexOfFieldNumber x.fieldNumber = some i)
    (hfield : (S.propertyOrdering t).fields[i]? = some f)
    (htype : contentType S f.type = some t') (hpayload : x.payload = length ++ content)
    (hlength : IsVarint env length (BitVec.ofNat 64 content.length))
    (hsize : content.length ≤ maxByteArraySize)
    (hnested : ∀ (d : Deserializer) (start : Message) (tail : Bytes) (frames : List Int),
      d.At content tail frames → WellFormed S t' start →
        ∃ d' sub, Returns env S t' [] {} d start content.length (d', sub, true) ∧
          d'.it = d.it.advance content.length ∧ d'.state = frames ∧ d'.lastError = .none ∧
          WellFormed S t' sub)
    (hp : p.Ready S t (x.bytes ++ input) tail frames) : ∃ q, p.Step env S t x q := by
  obtain ⟨c, m₁, hselect, hc, hproperty, hformed, hcontent⟩ :=
    selectProperty_spec hp.pending hfield
  obtain ⟨start, next, message, hnests, hstart, hsub⟩ :=
    exists_nests (i := i) (m := m₁) htype hproperty
  have hmessage : (f.fieldFlags.isMessage || f.fieldFlags.isMap) = true := by
    rw [FieldInfo.fieldFlags_isMessage ((S.propertyOrdering t).presence_fits f
      (List.mem_of_getElem? hfield)), hnests.isMessage]
  have hat := (nextFieldIndex_enter hx hp.position hpayload hlength hsize hindex hfield hmessage 0
    p.message).2
  obtain ⟨d', sub, hreturns, hit, hstate, herror, hformedSub⟩ := hnested _ start _ _ hat hstart
  obtain ⟨hindex', hproperty', hother⟩ := hsub sub hformedSub
  rw [hc] at hindex'
  have hpos := hx.length_pos
  have hshort : content.length + 1 ≤ x.bytes.length := by
    obtain ⟨value, hvarint, -⟩ := hx.header
    have hheader := hvarint.length_pos
    rw [WireField.bytes, hpayload, List.length_append, List.length_append]
    omega
  refine ⟨⟨i :: p.seen, next sub, d', message sub⟩, fun k result h => ?_, ?_, ?_, ?_,
    .cached hindex' hfield hproperty' fun y hy => (hformed y hy).of_eq (hother y hy),
    by rw [hindex]; rfl, fun k g hg hpackable hne => ?_⟩
  · refine (Returns.nests (n := k + content.length) hx hp.position hindex hfield hpayload hlength
      hsize hselect hnests hreturns (by omega) (h.mono (by omega))).mono (by omega)
  · have hleft := Iterator.bytesLeft_append hp.position.rest
    rw [List.length_append] at hleft
    rw [hit]
    simp only [Deserializer.enter]
    rw [Iterator.advance_advance hp.position.valid (by omega)]
    congr 2
    omega
  · exact hstate
  · rw [herror, hp.position.noError]
  · have hik : i ≠ k := fun heq => hne (by rw [hindex, heq])
    exact SelectsFrom.kept hcontent hg hpackable hc hindex' hik
      (hother _ (FieldInfo.field_ne_memberAt f hik))

end

/-! ## Sequences of fields -/

variable (env S) in
/-- The fields of a sequence are decoded one by one. -/
inductive LoopState.Steps (t : MessageType) : List WireField → LoopState → LoopState → Prop where
  | nil (p : LoopState) : Steps t [] p p
  | cons {x : WireField} {xs : List WireField} {p q r : LoopState} (h : p.Step env S t x q)
      (rest : Steps t xs q r) : Steps t (x :: xs) p r

namespace LoopState.Steps

variable {t : MessageType} {xs : List WireField} {p q : LoopState}

/-- Fields that are read one after another compose. -/
theorem append {ys : List WireField} {r : LoopState} (h : Steps env S t xs p q)
    (h' : Steps env S t ys q r) : Steps env S t (xs ++ ys) p r := by
  induction h with
  | nil => exact h'
  | cons h rest ih => exact .cons h (ih h')

/-- Reading the fields leads over exactly their bytes. -/
theorem leads (h : Steps env S t xs p q) :
    p.Leads env S t (xs.flatMap WireField.bytes).length q := by
  induction h with
  | nil p => exact .refl t p
  | cons h rest ih =>
    rw [List.flatMap_cons, List.length_append, Nat.add_comm]
    exact h.leads.trans ih

/-- After the fields have been read, the loop is ready for what follows them. -/
theorem ready {input tail : Bytes} {frames : List Int} (h : Steps env S t xs p q)
    (hp : p.Ready S t (xs.flatMap WireField.bytes ++ input) tail frames) :
    q.Ready S t input tail frames := by
  induction h with
  | nil => exact hp
  | cons h rest ih =>
    rw [List.flatMap_cons, List.append_assoc] at hp
    exact ih (h.ready hp)

/-- Fields that were seen stay seen. -/
theorem seen_of_mem {i : Nat} (h : Steps env S t xs p q) (hi : i ∈ p.seen) : i ∈ q.seen := by
  induction h with
  | nil => exact hi
  | cons h rest ih => exact ih (by rw [h.seen]; exact List.mem_append_right _ hi)

/-- The fields of a sequence have been seen behind it. -/
theorem seen {x : WireField} {i : Nat} (h : Steps env S t xs p q) (hx : x ∈ xs)
    (hindex : (S.propertyOrdering t).indexOfFieldNumber x.fieldNumber = some i) : i ∈ q.seen := by
  induction h with
  | nil => cases hx
  | cons h rest ih =>
    rcases List.mem_cons.mp hx with rfl | hx
    · exact rest.seen_of_mem (by rw [h.seen, hindex]; simp)
    · exact ih hx

/-- The iterator is advanced by the length of the fields' bytes. -/
theorem it {input tail : Bytes} {frames : List Int} (h : Steps env S t xs p q)
    (hp : p.Ready S t (xs.flatMap WireField.bytes ++ input) tail frames) :
    q.deserializer.it = p.deserializer.it.advance (xs.flatMap WireField.bytes).length := by
  induction h with
  | nil p => simp [Iterator.advance]
  | cons h rest ih =>
    rw [List.flatMap_cons, List.append_assoc] at hp
    have hleft := Iterator.bytesLeft_append hp.position.rest
    rw [List.length_append] at hleft
    rw [ih (h.ready hp), h.it, Iterator.advance_advance hp.position.valid (by omega),
      List.flatMap_cons, List.length_append]

end LoopState.Steps

/-- A field of the descriptor is found by its number. -/
theorem indexOfFieldNumber_of_getElem? {d : MessageDescriptor} {i : Nat} {f : FieldInfo}
    (h : d.fields[i]? = some f) : d.indexOfFieldNumber f.fieldNumber = some i := by
  obtain ⟨hlt, rfl⟩ := List.getElem?_eq_some_iff.mp h
  have hbound := d.numbers_bound d.fields[i] (List.getElem_mem hlt)
  rw [MessageDescriptor.indexOfFieldNumber, if_pos hbound.1, List.findIdx?_eq_some_iff_getElem]
  refine ⟨hlt, by simp, fun k hk => ?_⟩
  have hne : d.fields[k].fieldNumber ≠ d.fields[i].fieldNumber := by
    intro heq
    have hsame := (@List.Nodup.getElem_inj_iff _ _ d.numbers_nodup k (by simp; omega) i
      (by simpa using hlt)).mp (by simpa using heq)
    omega
  simpa using hne

/-- A number that is found belongs to a field of the descriptor. -/
theorem exists_field_of_indexOfFieldNumber {d : MessageDescriptor} {n k : Nat}
    (h : d.indexOfFieldNumber n = some k) : ∃ g, d.fields[k]? = some g := by
  unfold MessageDescriptor.indexOfFieldNumber at h
  split at h
  · obtain ⟨hlt, -⟩ := List.findIdx?_eq_some_iff_getElem.mp h
    exact ⟨_, List.getElem?_eq_getElem hlt⟩
  · cases h

/-- The field that a number leads to has that number. -/
theorem fieldNumber_of_indexOfFieldNumber {d : MessageDescriptor} {n k : Nat} {g : FieldInfo}
    (h : d.indexOfFieldNumber n = some k) (hg : d.fields[k]? = some g) : g.fieldNumber = n := by
  unfold MessageDescriptor.indexOfFieldNumber at h
  split at h
  · obtain ⟨hlt, hnumber, -⟩ := List.findIdx?_eq_some_iff_getElem.mp h
    rw [List.getElem?_eq_getElem hlt] at hg
    cases hg
    simpa using hnumber
  · cases h

/-- Behind its last field a message with all required fields is finished. -/
theorem LoopState.Steps.finish {t : MessageType} {xs : List WireField} {p q : LoopState}
    {tail : Bytes} {frames : List Int} (h : p.Steps env S t xs q)
    (hp : p.Ready S t (xs.flatMap WireField.bytes) tail frames)
    (hrequired : RequiredPresent S t xs) :
    ∃ m', Returns env S t p.seen p.cache p.deserializer p.message
        (xs.flatMap WireField.bytes).length ({ q.deserializer with state := frames }, m', true) ∧
      q.deserializer.it = p.deserializer.it.advance (xs.flatMap WireField.bytes).length ∧
      q.deserializer.lastError = .none ∧ WellFormed S t m' ∧
      ∀ k g, (S.propertyOrdering t).fields[k]? = some g → g.type.isPackable = true →
        m'.member (.field k) = q.cache.stored S q.message k g := by
  rw [← List.append_nil (xs.flatMap WireField.bytes)] at hp
  have hq := h.ready hp
  obtain ⟨cache', m', hstore, -, hformed, hcontent⟩ := storeCachedValue_spec hq.pending
  have hmissing : missingFields (S.propertyOrdering t) q.seen = [] := by
    rw [missingFields, List.map_eq_nil_iff, List.filter_eq_nil_iff]
    rintro ⟨f, i⟩ hfi
    have hf := List.mk_mem_zipIdx_iff_getElem?.mp hfi
    have hcontains : f.fieldFlags.required → q.seen.contains i := by
      intro hreq
      obtain ⟨x, hx, hnumber⟩ := hrequired f (List.mem_of_getElem? hf) hreq
      exact List.elem_iff.mpr (h.seen hx (hnumber ▸ indexOfFieldNumber_of_getElem? hf))
    simp only [Bool.and_eq_true, Bool.not_eq_eq_eq_not, Bool.not_true, not_and,
      Bool.not_eq_false]
    exact hcontains
  refine ⟨m', ?_, h.it hp, hq.position.noError, hformed, hcontent⟩
  have hleads := h.leads 0 ({ q.deserializer with state := frames }, m', true)
    (Returns.finish hq.position ?_)
  · rwa [Nat.zero_add] at hleads
  · simp only [finishMessage, hstore, checkRequiredFields, hmissing, format]
    split <;> rfl

/-- Fields that can be decoded from any state are decoded one by one. -/
theorem exists_steps {t : MessageType} (xs : List WireField)
    (hstep : ∀ x ∈ xs, ∀ (p : LoopState) (input tail : Bytes) (frames : List Int),
      p.Ready S t (x.bytes ++ input) tail frames → ∃ q, p.Step env S t x q)
    {p : LoopState} {input tail : Bytes} {frames : List Int}
    (hp : p.Ready S t (xs.flatMap WireField.bytes ++ input) tail frames) :
    ∃ q, p.Steps env S t xs q := by
  induction xs generalizing p with
  | nil => exact ⟨p, .nil p⟩
  | cons x xs ih =>
    rw [List.flatMap_cons, List.append_assoc] at hp
    obtain ⟨q, hq⟩ := hstep x List.mem_cons_self p _ tail frames hp
    obtain ⟨r, hr⟩ := ih (fun y hy => hstep y (List.mem_cons_of_mem _ hy)) (hq.ready hp)
    exact ⟨r, .cons hq hr⟩

/-- The loop decodes a field that fits. -/
theorem Fits.step {t : MessageType} {x : WireField} (h : Fits env S t x) {p : LoopState}
    {input tail : Bytes} {frames : List Int}
    (hp : p.Ready S t (x.bytes ++ input) tail frames) : ∃ q, p.Step env S t x q := by
  induction h generalizing p input tail frames with
  | unknown hx hindex => exact step_unknown hx hindex hp
  | plain hx hindex hfield htaken => exact step_plain hx hindex hfield htaken hp
  | message hx hindex hfield htype hpayload hlength hsize hfits hrequired ih =>
    refine step_message hx hindex hfield htype hpayload hlength hsize ?_ hp
    intro d start tail frames hat hstart
    have hready : LoopState.Ready S _ ⟨[], {}, d, start⟩ _ tail frames := ⟨hat, .stored rfl hstart⟩
    obtain ⟨q, hsteps⟩ := @exists_steps _ _ _ _ (fun y hy p input tail frames hp => ih y hy hp) _ []
      _ _ (by rwa [List.append_nil])
    obtain ⟨sub, hreturns, hit, herror, hformed, -⟩ := hsteps.finish hready hrequired
    exact ⟨_, sub, hreturns, hit, rfl, herror, hformed⟩

/-! ## A whole input -/

/-- The loop before the first field of an input. -/
def LoopState.start (S : Schema) (s : Serializer) (t : MessageType) (data : Bytes) : LoopState :=
  ⟨[], {}, Serializer.started s.deserializer data, S.defaultMessage t⟩

/-- At the start the loop is ready for the whole input. -/
theorem LoopState.ready_start (s : Serializer) (t : MessageType) (data : Bytes) :
    (LoopState.start S s t data).Ready S t data [] [] := by
  refine ⟨⟨?_, ?_, ?_, rfl⟩, .stored rfl (defaultMessage_wellFormed S t)⟩
  · simp [start, Serializer.started, Deserializer.reset, Iterator.isValid, Iterator.fromView]
  · rw [List.append_nil]
    exact rest_fromView data
  · simp [start, Serializer.started, Deserializer.reset, Iterator.fromView]

/-- An input whose fields can be decoded one by one is accepted. -/
theorem LoopState.Steps.deserialize {s : Serializer} {t : MessageType} {xs : List WireField}
    {q : LoopState} (h : (start S s t (xs.flatMap WireField.bytes)).Steps env S t xs q)
    (hrequired : RequiredPresent S t xs)
    (hsize : (xs.flatMap WireField.bytes).length ≤ s.effectiveMaximumInputSize) :
    ∃ m, WellFormed S t m ∧
      (∀ k g, (S.propertyOrdering t).fields[k]? = some g → g.type.isPackable = true →
        m.member (.field k) = q.cache.stored S q.message k g) ∧
      ∀ fuel, (xs.flatMap WireField.bytes).length < fuel →
        ∃ s', s.deserialize env S fuel t (xs.flatMap WireField.bytes) = (s', m, .returned true) := by
  obtain ⟨m, hreturns, -, hnoError, hformed, hcontent⟩ := h.finish (ready_start s t _) hrequired
  refine ⟨m, hformed, hcontent, fun fuel hfuel => ?_⟩
  have hloop := hreturns fuel hfuel
  simp only [start] at hloop
  simp only [Serializer.deserialize, if_neg (Nat.not_lt.mpr hsize), deserializeMessage, hloop]
  refine ⟨{ s with deserializer :=
    ({ q.deserializer with state := [] } : Deserializer).reset [] }, ?_⟩
  simp [Deserializer.reset, hnoError]

end QtGrpc.Protobuf.Binary
