import QtGrpc.Protobuf.Binary.Distinguishing

/-!
# The order of fields

Fields of different numbers may come in either order, as long as they are no members of one oneof:
the message is the same if the setters of both fields tell their values apart. A setter that keeps
an old value makes a difference, since the cached property is written whenever another field comes.
-/

namespace QtGrpc.Protobuf.Binary

/-! ## Unknown fields -/

/-- The message with these unknown fields. -/
def withEntries (m : Message) (entries : List (Nat × List Bytes)) : Message := .mk m.member entries

/-- Other unknown fields leave the members alone. -/
@[simp] theorem member_withEntries (m : Message) (entries : List (Nat × List Bytes)) :
    (withEntries m entries).member = m.member := rfl

/-- They are those that were given. -/
@[simp] theorem unknownEntries_withEntries (m : Message) (entries : List (Nat × List Bytes)) :
    (withEntries m entries).unknownEntries = entries := rfl

section

variable {env : Environment} {S : Schema} {keep : Bool} {t : MessageType}
  {entries : List (Nat × List Bytes)}

/-- With the unknown fields of another message and its members a message is the other one. -/
theorem withEntries_eq {m m' : Message} (h : m.member = m'.member) :
    withEntries m m'.unknownEntries = m' :=
  Message.ext_member h rfl

/-- Getting a property does not depend on the unknown fields. -/
theorem initializedProperty_withEntries (m : Message) (i : Nat) (f : FieldInfo) :
    S.initializedProperty (withEntries m entries) i f =
      (withEntries (S.initializedProperty m i f).1 entries, (S.initializedProperty m i f).2) := by
  have hstate (j : Nat) : (withEntries m entries).oneofState j = m.oneofState j := rfl
  unfold Schema.initializedProperty
  split
  case h_2 =>
    rw [hstate]
    split <;> rfl
  all_goals rfl

/-- Nor does setting one. -/
theorem setMessageProperty_withEntries (m : Message) (i : Nat) (f : FieldInfo) (v : Value) :
    S.setMessageProperty (withEntries m entries) i f v =
      (withEntries (S.setMessageProperty m i f v).1 entries,
        (S.setMessageProperty m i f v).2) := by
  have hstate (j : Nat) : (withEntries m entries).oneofState j = m.oneofState j := rfl
  have hmember : (withEntries m entries).member (.field i) = m.member (.field i) := rfl
  unfold Schema.setMessageProperty
  cases S.convert f.type v with
  | none => rfl
  | some w =>
    cases f.presence with
    | oneof j =>
      simp only [hstate]
      split <;> rfl
    | optional | mapEntry =>
      simp only
      rw [hmember]
      by_cases hsame : S.isEqual (m.member (.field i)) w = true
      · rw [if_pos hsame, if_pos hsame]
      · rw [if_neg hsame, if_neg hsame]
        rfl
    | implicit | required => rfl

/-- Nor does storing the value in the cache. -/
theorem storeCachedValue_withEntries (cache : Cache) (m : Message) :
    storeCachedValue S t cache (withEntries m entries) =
      ((storeCachedValue S t cache m).1, withEntries (storeCachedValue S t cache m).2.1 entries,
        (storeCachedValue S t cache m).2.2) := by
  unfold storeCachedValue
  cases cache.index with
  | none => rfl
  | some i =>
    simp only
    split
    · rfl
    · cases (S.propertyOrdering t).fields[i]? with
      | none => rfl
      | some f => simp only [setMessageProperty_withEntries]

/-- Nor does selecting the property of the next field. -/
theorem selectProperty_withEntries (i : Nat) (f : FieldInfo) (cache : Cache) (m : Message) :
    selectProperty S t i f cache (withEntries m entries) =
      ((selectProperty S t i f cache m).1, withEntries (selectProperty S t i f cache m).2.1 entries,
        (selectProperty S t i f cache m).2.2) := by
  unfold selectProperty
  split
  · rfl
  · simp only [storeCachedValue_withEntries]
    split
    · simp only [initializedProperty_withEntries]
    · rfl

/-- Nor does putting a value into a property. -/
theorem placeProperty_withEntries (m : Message) (i : Nat) (f : FieldInfo) (v : Value) :
    placeProperty (withEntries m entries) i f v = withEntries (placeProperty m i f v) entries := by
  unfold placeProperty Message.writeThrough
  split
  · split <;> rfl
  · rfl

/-- A field the type has does not look at unknown fields. -/
theorem Decodes.withEntries {x : WireField} {p q : Draft} {i : Nat}
    (h : Decodes env S keep t [x] p q)
    (hindex : (S.propertyOrdering t).indexOfFieldNumber x.fieldNumber = some i)
    (entries : List (Nat × List Bytes)) :
    q.message.unknownEntries = p.message.unknownEntries ∧
    Decodes env S keep t [x] ⟨p.cache, Binary.withEntries p.message entries⟩
      ⟨q.cache, Binary.withEntries q.message entries⟩ := by
  have hx := h.complete x List.mem_cons_self
  obtain ⟨f, hf⟩ := exists_field_of_indexOfFieldNumber hindex
  obtain ⟨c, m, entry, v, hselect, hturns, rfl⟩ := (decodes_known_iff hx hindex hf).mp h
  constructor
  · have hself := @selectProperty_withEntries S t p.message.unknownEntries i f p.cache
      p.message
    rw [withEntries_eq rfl, hselect] at hself
    have hm : m.unknownEntries = p.message.unknownEntries := by
      have := congrArg (fun r => r.2.1.unknownEntries) hself
      simpa using this
    exact (sameElsewhere_placeProperty m i f v).2.trans hm
  · refine (decodes_known_iff hx hindex hf).mpr
      ⟨c, Binary.withEntries m entries, entry, v, ?_, hturns, ?_⟩
    · rw [selectProperty_withEntries, hselect]
    · simp only [Draft.turned, placeProperty_withEntries]

/-- Two messages with the same members and, for every number, the same unknown fields. -/
def SameMessage (m m' : Message) : Prop :=
  m.member = m'.member ∧ ∀ n, m.unknownEntries.lookup n = m'.unknownEntries.lookup n

/-- A message is the same as itself. -/
theorem SameMessage.refl (m : Message) : SameMessage m m := ⟨rfl, fun _ => rfl⟩

/-- A field is kept behind the others of its number. -/
theorem lookup_storeUnknownEntry (m : Message) (entry : Bytes) (n k : Nat) :
    (m.storeUnknownEntry entry n).unknownEntries.lookup k =
      if k = n then some ((m.unknownEntries.lookup n).getD [] ++ [entry])
      else m.unknownEntries.lookup k := by
  obtain ⟨member, entries⟩ := m
  change List.lookup k (Message.storeUnknownEntry.append entry n entries) =
    if k = n then some ((List.lookup n entries).getD [] ++ [entry]) else List.lookup k entries
  induction entries with
  | nil =>
    rw [Message.storeUnknownEntry.append]
    by_cases hk : k = n
    · simp [hk]
    · simp [hk]
  | cons first entries ih =>
    obtain ⟨n', kept⟩ := first
    rw [Message.storeUnknownEntry.append]
    by_cases hn : n' = n
    · subst hn
      rw [if_pos rfl]
      by_cases hk : k = n'
      · simp [hk]
      · have hne : (k == n') = false := beq_eq_false_iff_ne.mpr hk
        simp [List.lookup_cons, hk, hne]
    · rw [if_neg hn, List.lookup_cons, ih]
      by_cases hk : k = n
      · subst hk
        have hne : (k == n') = false := beq_eq_false_iff_ne.mpr (Ne.symm hn)
        simp [List.lookup_cons, hne]
      · simp [List.lookup_cons, hk]

/-- The same messages are the same behind another unknown field. -/
theorem SameMessage.kept {m m' : Message} (h : SameMessage m m') (x : WireField) :
    SameMessage (keptMessage keep m x) (keptMessage keep m' x) := by
  refine ⟨by simpa using h.1, fun n => ?_⟩
  unfold keptMessage
  split
  · rw [lookup_storeUnknownEntry, lookup_storeUnknownEntry, h.2, h.2]
  · exact h.2 n

/-- Unknown fields of different numbers do not meet. -/
theorem sameMessage_kept_kept {x y : WireField} (h : x.fieldNumber ≠ y.fieldNumber) (m : Message) :
    SameMessage (keptMessage keep (keptMessage keep m x) y)
      (keptMessage keep (keptMessage keep m y) x) := by
  refine ⟨by simp, fun n => ?_⟩
  unfold keptMessage
  split
  · simp only [lookup_storeUnknownEntry]
    by_cases hx : n = x.fieldNumber
    · subst hx
      simp [h]
    · by_cases hy : n = y.fieldNumber
      · subst hy
        simp [Ne.symm h]
      · simp [hx, hy]
  · rfl

/-- Two drafts of such messages. -/
structure SameDraft (p q : Draft) : Prop where
  cache : q.cache = p.cache
  message : SameMessage p.message q.message

/-- The same drafts differ in the order of their unknown fields at most. -/
theorem SameDraft.eq_withEntries {p q : Draft} (h : SameDraft p q) :
    q = ⟨p.cache, withEntries p.message q.message.unknownEntries⟩ := by
  obtain ⟨cache, message⟩ := q
  obtain ⟨hcache, hmessage⟩ := h
  simp only at hcache hmessage
  rw [hcache, withEntries_eq hmessage.1]

/-- The unknown fields of two drafts stay the same along a sequence of fields. -/
theorem SameDraft.decodes {xs : List WireField} {p q p' : Draft} (h : SameDraft p q)
    (hdecodes : Decodes env S keep t xs p p') :
    ∃ q', Decodes env S keep t xs q q' ∧ SameDraft p' q' := by
  induction xs generalizing p q with
  | nil =>
    obtain rfl := hdecodes.eq_of_nil
    exact ⟨q, .nil t q, h⟩
  | cons x xs ih =>
    obtain ⟨p₁, hx, hxs⟩ := hdecodes.of_cons
    have hcomplete := hx.complete x List.mem_cons_self
    have hone : ∃ q₁, Decodes env S keep t [x] q q₁ ∧ SameDraft p₁ q₁ := by
      cases hindex : (S.propertyOrdering t).indexOfFieldNumber x.fieldNumber with
      | none =>
        obtain rfl := (decodes_unknown_iff hcomplete hindex).mp hx
        exact ⟨_, (decodes_unknown_iff hcomplete hindex).mpr rfl, h.cache, h.message.kept x⟩
      | some i =>
        obtain ⟨hentries, hq⟩ := hx.withEntries hindex q.message.unknownEntries
        rw [← h.eq_withEntries] at hq
        refine ⟨_, hq, rfl, rfl, fun n => ?_⟩
        rw [hentries]
        exact h.message.2 n
    obtain ⟨q₁, hq₁, hsame⟩ := hone
    obtain ⟨q', hq', hsame'⟩ := ih hsame hxs
    exact ⟨q', hq₁.append hq', hsame'⟩

/-- They are written as such messages. -/
theorem SameDraft.store {p q : Draft} (h : SameDraft p q) {c : Cache} {m : Message}
    (hstore : storeCachedValue S t p.cache p.message = (c, m, true)) :
    ∃ m', storeCachedValue S t q.cache q.message = (c, m', true) ∧ SameMessage m m' := by
  have hself := @storeCachedValue_withEntries S t p.message.unknownEntries p.cache p.message
  rw [withEntries_eq rfl, hstore] at hself
  have hm : m.unknownEntries = p.message.unknownEntries := by
    have := congrArg (fun r => r.2.1.unknownEntries) hself
    simpa using this
  rw [h.eq_withEntries, storeCachedValue_withEntries, hstore]
  refine ⟨_, rfl, rfl, fun n => ?_⟩
  rw [hm]
  exact h.message.2 n

/-- A kept field is one more unknown field. -/
theorem keptMessage_withEntries (m m' : Message) (x : WireField) :
    keptMessage keep (withEntries m m'.unknownEntries) x =
      withEntries m (keptMessage keep m' x).unknownEntries := by
  unfold keptMessage
  split <;> rfl

/-- A field the type has may come behind one it does not have. -/
theorem Decodes.kept {x y : WireField} {p q : Draft} {k : Nat} (h : Decodes env S keep t [y] p q)
    (hindex : (S.propertyOrdering t).indexOfFieldNumber y.fieldNumber = some k) :
    Decodes env S keep t [y] ⟨p.cache, keptMessage keep p.message x⟩
      ⟨q.cache, keptMessage keep q.message x⟩ := by
  obtain ⟨hentries, hkept⟩ := h.withEntries hindex (keptMessage keep p.message x).unknownEntries
  rw [← keptMessage_withEntries, ← keptMessage_withEntries, withEntries_eq rfl, ← hentries,
    withEntries_eq rfl] at hkept
  exact hkept

/-- A known field is decoded alike before and behind an unknown one. -/
theorem Decodes.of_kept {x y : WireField} {p r : Draft} {k : Nat}
    (h : Decodes env S keep t [y] ⟨p.cache, keptMessage keep p.message x⟩ r)
    (hindex : (S.propertyOrdering t).indexOfFieldNumber y.fieldNumber = some k) :
    ∃ q, Decodes env S keep t [y] p q ∧ r = ⟨q.cache, keptMessage keep q.message x⟩ := by
  obtain ⟨hentries, hdropped⟩ := h.withEntries hindex p.message.unknownEntries
  simp only at hentries hdropped
  rw [withEntries_eq (by simp)] at hdropped
  refine ⟨_, hdropped, ?_⟩
  simp only
  rw [keptMessage_withEntries, ← hentries, withEntries_eq rfl]

/-! ## Two fields -/

variable {A : Nat → Prop} {x y : WireField} {p : Draft}

/-- Fields are decoded as from a message that the draft stands for, if the other property is
written first. -/
theorem Draft.Sound.exists_settles (h : p.Sound S t) (A : Nat → Prop) :
    ∃ r M, r.Settles S t A M ∧ (∀ zs, p.Exact S t A zs → r.Exact S t A zs) ∧ ∀ x i q,
      (S.propertyOrdering t).indexOfFieldNumber x.fieldNumber = some i → A i → x.Complete env →
        (Decodes env S keep t [x] p q ↔ Decodes env S keep t [x] r q) := by
  cases hk : p.cache.index with
  | none =>
    have hp : p = ⟨{}, p.message⟩ := by
      obtain ⟨cache, m⟩ := p
      rw [show cache = {} from h.empty hk]
    refine ⟨p, p.message, ?_, fun _ hexact => hexact, fun _ _ _ _ _ _ => Iff.rfl⟩
    rw [hp]
    exact .stored _
  | some k =>
    obtain ⟨f, hf, hv⟩ : ∃ f, (S.propertyOrdering t).fields[k]? = some f ∧
        IsProperty S f p.cache.propertyValue := by
      cases h.pending with
      | stored hindex _ => simp [hindex] at hk
      | cached hindex hf hv _ =>
        rw [hindex] at hk
        cases hk
        exact ⟨_, hf, hv⟩
    by_cases hA : A k
    · exact ⟨p, _, .cached hk hA hf hv.suits (h.entry k f hk hf), fun _ hexact => hexact,
        fun _ _ _ _ _ _ => Iff.rfl⟩
    · obtain ⟨M, hstore, -⟩ := h.store
      refine ⟨⟨{}, M⟩, M, .stored M, fun _ _ => ⟨fun i f hi => (by cases hi),
        fun i f x hi => (by cases hi)⟩, fun x i q hindex hi hx => ?_⟩
      have hne : p.cache.index ≠ some i := by
        rw [hk]
        rintro heq
        exact hA (Option.some.inj heq ▸ hi)
      obtain ⟨g, hg⟩ := exists_field_of_indexOfFieldNumber hindex
      have hselect : selectProperty S t i g p.cache p.message = selectProperty S t i g {} M := by
        simp only [selectProperty, if_neg hne, hstore, if_true]
        rfl
      rw [decodes_known_iff hx hindex hg, decodes_known_iff hx hindex hg, hselect]

/-- Two fields of different members make drafts that stand for the same message in either order. -/
theorem exchange_decodes {i k : Nat} {f g : FieldInfo} {q : Draft} {zs : List WireField}
    (hp : p.Sound S t)
    (hi : (S.propertyOrdering t).indexOfFieldNumber x.fieldNumber = some i)
    (hk : (S.propertyOrdering t).indexOfFieldNumber y.fieldNumber = some k)
    (hf : (S.propertyOrdering t).fields[i]? = some f)
    (hg : (S.propertyOrdering t).fields[k]? = some g) (hmember : f.memberAt i ≠ g.memberAt k)
    (hiA : A i) (hkA : A k) (hexact : ExactAlong env S keep t A (x :: y :: zs) p)
    (hexact' : ExactAlong env S keep t A (y :: x :: zs) p) (h : Decodes env S keep t [x, y] p q) :
    ∃ q', Decodes env S keep t [y, x] p q' ∧ q.Alike S t A q' := by
  obtain ⟨p₁, hx, hy⟩ := h.of_cons
  have hxComplete := hx.complete x List.mem_cons_self
  have hyComplete := hy.complete y List.mem_cons_self
  have hxA : ∀ n, (S.propertyOrdering t).indexOfFieldNumber x.fieldNumber = some n → A n := by
    intro n hn
    rw [hi] at hn
    cases hn
    exact hiA
  have hyA : ∀ n, (S.propertyOrdering t).indexOfFieldNumber y.fieldNumber = some n → A n := by
    intro n hn
    rw [hk] at hn
    cases hn
    exact hkA
  obtain ⟨r, M, hsettles, hr, hiff⟩ := @Draft.Sound.exists_settles env S keep t p hp A
  obtain ⟨M₁, habsorbs, hp₁⟩ :=
    hsettles.absorbs (hr _ hexact.head) hxA ((hiff x i p₁ hi hiA hxComplete).mp hx)
  have hexact₁ := (hexact.tail [x] hx).head
  obtain ⟨M₂, habsorbs', hq⟩ := hp₁.absorbs hexact₁ hyA hy
  obtain ⟨N, hyM, hxN⟩ := habsorbs.exchange habsorbs' hi hk hf hg hmember
  obtain ⟨q₁, hq₁, hsettles₁⟩ := hsettles.decodes (hr _ hexact'.head) hyA hyM
  have hfirst := (hiff y k q₁ hk hkA hyComplete).mpr hq₁
  have hexact₂ := (hexact'.tail [y] hfirst).head
  obtain ⟨q', hq', hsettles'⟩ := hsettles₁.decodes hexact₂ hxA hxN
  exact ⟨q', hfirst.append hq', .inr ⟨M₂, hq, hsettles'⟩⟩

end

/-! ## Two fields of an input -/

/-- An input, two neighbours of which have different numbers and share no oneof. -/
structure Exchange (env : Environment) (S : Schema) (t : MessageType) where
  before : List WireField
  x : WireField
  y : WireField
  after : List WireField
  hfits : ∀ z ∈ before ++ x :: y :: after, Fits env S t z
  hrequired : RequiredPresent S t (before ++ x :: y :: after)
  hnumber : x.fieldNumber ≠ y.fieldNumber
  honeof : ∀ f ∈ (S.propertyOrdering t).fields, ∀ g ∈ (S.propertyOrdering t).fields,
    f.fieldNumber = x.fieldNumber → g.fieldNumber = y.fieldNumber →
      ∀ j, f.presence = .oneof j → g.presence ≠ .oneof j

namespace Exchange

variable {env : Environment} {S : Schema} {t : MessageType} {keep : Bool}

def fields (E : Exchange env S t) : List WireField := E.before ++ E.x :: E.y :: E.after

def exchanged (E : Exchange env S t) : List WireField := E.before ++ E.y :: E.x :: E.after

/-- Both orders are accepted, and decoded to the same message. -/
def SameEitherWay (E : Exchange env S t) (s : Serializer) : Prop :=
  ∀ fuel, (E.fields.flatMap WireField.bytes).length < fuel →
    ∃ s₁ m₁ s₂ m₂,
      s.deserialize env S fuel t (E.fields.flatMap WireField.bytes) = (s₁, m₁, .returned true) ∧
      s.deserialize env S fuel t (E.exchanged.flatMap WireField.bytes) = (s₂, m₂, .returned true) ∧
      SameMessage m₁ m₂

/-- Behind the fields in front, the setters of two fields the type has keep no old value for a
different new one, in either order. -/
def Stores (E : Exchange env S t) (keep : Bool) : Prop :=
  ∀ p i k, Decodes env S keep t E.before (.start S t) p →
    (S.propertyOrdering t).indexOfFieldNumber E.x.fieldNumber = some i →
    (S.propertyOrdering t).indexOfFieldNumber E.y.fieldNumber = some k →
      ExactAlong env S keep t (fun n => n = i ∨ n = k) (E.x :: E.y :: E.after) p ∧
      ExactAlong env S keep t (fun n => n = i ∨ n = k) (E.y :: E.x :: E.after) p

/-- Both orders have the same fields. -/
theorem exchanged_perm (E : Exchange env S t) : E.exchanged.Perm E.fields :=
  (List.Perm.swap E.x E.y E.after).append_left E.before

/-- And the same length. -/
theorem length_exchanged (E : Exchange env S t) :
    (E.exchanged.flatMap WireField.bytes).length = (E.fields.flatMap WireField.bytes).length :=
  (E.exchanged_perm.flatMap_right WireField.bytes).length_eq

/-- Required fields are there in both orders or in none. -/
theorem requiredPresent_exchanged (E : Exchange env S t) : RequiredPresent S t E.exchanged := by
  intro f hf hrequired
  obtain ⟨z, hz, hnumber⟩ := E.hrequired f hf hrequired
  exact ⟨z, E.exchanged_perm.mem_iff.mpr hz, hnumber⟩

/-- Two fields the type has belong to different members. -/
theorem memberAt_ne (E : Exchange env S t) {i k : Nat} {f g : FieldInfo}
    (hi : (S.propertyOrdering t).indexOfFieldNumber E.x.fieldNumber = some i)
    (hk : (S.propertyOrdering t).indexOfFieldNumber E.y.fieldNumber = some k)
    (hf : (S.propertyOrdering t).fields[i]? = some f)
    (hg : (S.propertyOrdering t).fields[k]? = some g) : f.memberAt i ≠ g.memberAt k := by
  have hfx := fieldNumber_of_indexOfFieldNumber hi hf
  have hgy := fieldNumber_of_indexOfFieldNumber hk hg
  refine Binary.memberAt_ne ?_ fun j hg' hf' =>
    E.honeof f (List.mem_of_getElem? hf) g (List.mem_of_getElem? hg) hfx hgy j hf' hg'
  rintro rfl
  rw [hf] at hg
  cases hg
  exact E.hnumber (hfx.symm.trans hgy)

/-- Whatever stands in front of them, two fields and those behind them are written as the same
message in the other order. -/
theorem decodes_exchanged (E : Exchange env S t) (h : E.Stores keep) {p r : Draft}
    (hbefore : Decodes env S keep t E.before (.start S t) p)
    (hafter : Decodes env S keep t (E.x :: E.y :: E.after) p r) {c : Cache} {m : Message}
    (hstore : storeCachedValue S t r.cache r.message = (c, m, true)) :
    ∃ r' c' m', Decodes env S keep t (E.y :: E.x :: E.after) p r' ∧
      storeCachedValue S t r'.cache r'.message = (c', m', true) ∧ SameMessage m m' := by
  obtain ⟨q, hboth, hrest⟩ := (show Decodes env S keep t ([E.x, E.y] ++ E.after) p r
    from hafter).of_append
  have hx := hboth.complete E.x (by simp)
  have hy := hboth.complete E.y (by simp)
  obtain ⟨p₁, hfirst, hsecond⟩ := hboth.of_cons
  cases hi : (S.propertyOrdering t).indexOfFieldNumber E.x.fieldNumber with
  | none =>
    obtain rfl := (decodes_unknown_iff hx hi).mp hfirst
    cases hk : (S.propertyOrdering t).indexOfFieldNumber E.y.fieldNumber with
    | none =>
      obtain rfl := (decodes_unknown_iff hy hk).mp hsecond
      have hsame : SameDraft
          ⟨p.cache, keptMessage keep (keptMessage keep p.message E.x) E.y⟩
          ⟨p.cache, keptMessage keep (keptMessage keep p.message E.y) E.x⟩ :=
        ⟨rfl, sameMessage_kept_kept E.hnumber p.message⟩
      obtain ⟨r', hr', hsame'⟩ := hsame.decodes hrest
      obtain ⟨m', hm', hmessage⟩ := hsame'.store hstore
      have hother : Decodes env S keep t [E.y, E.x] p
          ⟨p.cache, keptMessage keep (keptMessage keep p.message E.y) E.x⟩ :=
        .unknown hy hk (.unknown hx hi (.nil t _))
      exact ⟨r', c, m', hother.append hr', hm', hmessage⟩
    | some k =>
      obtain ⟨q₁, hq₁, rfl⟩ := hsecond.of_kept hk
      have hother : Decodes env S keep t [E.y, E.x] p ⟨q₁.cache, keptMessage keep q₁.message E.x⟩ :=
        hq₁.append ((decodes_unknown_iff hx hi).mpr rfl)
      exact ⟨r, c, m, hother.append hrest, hstore, .refl m⟩
  | some i =>
    cases hk : (S.propertyOrdering t).indexOfFieldNumber E.y.fieldNumber with
    | none =>
      obtain rfl := (decodes_unknown_iff hy hk).mp hsecond
      have hother : Decodes env S keep t [E.y, E.x] p ⟨p₁.cache, keptMessage keep p₁.message E.y⟩ :=
        .unknown hy hk (hfirst.kept hi)
      exact ⟨r, c, m, hother.append hrest, hstore, .refl m⟩
    | some k =>
      obtain ⟨f, hf⟩ := exists_field_of_indexOfFieldNumber hi
      obtain ⟨g, hg⟩ := exists_field_of_indexOfFieldNumber hk
      obtain ⟨hexact, hexact'⟩ := h p i k hbefore hi hk
      have hsound := hbefore.sound (Draft.sound_start S t)
      obtain ⟨q', hother, halike⟩ := exchange_decodes hsound hi hk hf hg (E.memberAt_ne hi hk hf hg)
        (.inl rfl) (.inr rfl) hexact hexact' hboth
      have hq := hexact.tail [E.x, E.y] hboth
      have hq' := hexact'.tail [E.y, E.x] hother
      obtain ⟨r', hr', halike'⟩ := halike.decodes hq hq' hrest
      obtain ⟨c', hstore'⟩ := halike'.store (hq.last hrest) (hq'.last hr') hstore
      exact ⟨r', c', m, hother.append hr', hstore', .refl m⟩

/-- Two neighbours may be exchanged if the setters of their fields keep no old value for a different
new one. -/
theorem sameEitherWay (E : Exchange env S t) (s : Serializer)
    (hsize : (E.fields.flatMap WireField.bytes).length ≤ s.effectiveMaximumInputSize)
    (h : E.Stores s.deserializer.preserveUnknownFields) : E.SameEitherWay s := by
  intro fuel hfuel
  obtain ⟨r, hr, hsound⟩ :=
    exists_decodes_of_fits s.deserializer.preserveUnknownFields E.hfits (Draft.sound_start S t)
  obtain ⟨m, hstore, -⟩ := hsound.store
  obtain ⟨p, hbefore, hafter⟩ := hr.of_append
  obtain ⟨r', c', m', hr', hstore', hsame⟩ := E.decodes_exchanged h hbefore hafter hstore
  obtain ⟨s₁, ok₁, hresult₁, hok₁⟩ := hr.deserialize hstore hsize hfuel
  obtain ⟨s₂, ok₂, hresult₂, hok₂⟩ := (hbefore.append hr').deserialize (s := s) hstore'
    (by rwa [← exchanged, E.length_exchanged]) (by rwa [← exchanged, E.length_exchanged])
  rw [hok₁.mpr E.hrequired] at hresult₁
  rw [hok₂.mpr E.requiredPresent_exchanged] at hresult₂
  exact ⟨s₁, m, s₂, m', hresult₁, hresult₂, hsame⟩

/-- The order of two fields does not matter to what a third setter tells apart. -/
theorem distinguishes_exchanged (E : Exchange env S t) {f : FieldInfo}
    (h : Distinguishes env S f E.fields) : Distinguishes env S f E.exchanged := by
  have hcompared {a : Scalar} (ha : Compared env f E.exchanged a) : Compared env f E.fields a := by
    cases ha with
    | carried hx hnumber hcarries =>
      exact .carried (E.exchanged_perm.mem_iff.mp hx) hnumber hcarries
    | initial htype hpresence => exact .initial htype hpresence
  have hfilter : E.exchanged.filter (·.fieldNumber == f.fieldNumber) =
      E.fields.filter (·.fieldNumber == f.fieldNumber) := by
    have hne := E.hnumber
    unfold exchanged fields
    simp only [List.filter_append, List.filter_cons, beq_iff_eq]
    by_cases hx : E.x.fieldNumber = f.fieldNumber
    · have hy : E.y.fieldNumber ≠ f.fieldNumber := fun hy => hne (hx.trans hy.symm)
      simp [hx, hy]
    · simp [hx]
  refine ⟨fun hstores a b ha hb => h.values hstores a b (hcompared ha) (hcompared hb), ?_, h.handler⟩
  intro key t' htype
  rw [hfilter]
  exact h.keys key t' htype

/-- Setters that tell the values in an input apart store them. -/
theorem stores_of_distinguishes (E : Exchange env S t)
    (h : ∀ f ∈ (S.propertyOrdering t).fields,
      f.fieldNumber = E.x.fieldNumber ∨ f.fieldNumber = E.y.fieldNumber →
        Distinguishes env S f E.fields) : E.Stores keep := by
  intro p i k hbefore hi hk
  have hd (n : Nat) (f : FieldInfo) (hn : n = i ∨ n = k)
      (hf : (S.propertyOrdering t).fields[n]? = some f) : Distinguishes env S f E.fields := by
    refine h f (List.mem_of_getElem? hf) ?_
    rcases hn with rfl | rfl
    · exact .inl (fieldNumber_of_indexOfFieldNumber hi hf)
    · exact .inr (fieldNumber_of_indexOfFieldNumber hk hf)
  exact ⟨exactAlong_of_distinguishes hd hbefore, exactAlong_of_distinguishes
    (fun n f hn hf => E.distinguishes_exchanged (hd n f hn hf)) hbefore⟩

end Exchange

/-- A message type with an optional and a plain number. -/
def balanceSchema : Schema where
  message
    | 0 => ⟨"Balance", [
        { fieldNumber := 1, jsonName := "amount", type := .scalar .double, presence := .optional },
        { fieldNumber := 2, jsonName := "count", type := .scalar .int32 }],
        by decide, by decide, by decide⟩
    | _ => .withoutFields "Empty"
  enumKeys _ := []
  findHandler _ := none
  typeName _ := ""

/-- The amount in eight bytes. -/
def amountField (payload : Bytes) : WireField := ⟨1, .fixed64, [0x09], payload⟩

/-- The count five. -/
def countField : WireField := ⟨2, .varint, [0x10], [0x05]⟩

/-- An amount in eight bytes fits its type. -/
theorem fits_amountField (payload : Bytes) (h : payload.length = 8) :
    Fits nullTerminated balanceSchema (.named 0) (amountField payload) :=
  .plain (i := 0) ⟨(by decide : 0 < 1), (by decide : 1 ≤ 2 ^ 29 - 1),
    ⟨9, (by decide : IsVarint nullTerminated [0x09] 9), rfl⟩, .fixed64 _ h⟩ rfl rfl
    (.scalar (k := .double) rfl .null)

/-- So does the count. -/
theorem fits_countField : Fits nullTerminated balanceSchema (.named 0) countField :=
  .plain (i := 1) ⟨by decide, by decide, ⟨16, by decide, by decide⟩, .varint _ 5 (by decide)⟩
    (by decide) rfl (.scalar (k := .int32) rfl .null)

/-- An amount, the count, and further amounts. -/
def balance (amount : Bytes) (amounts : List Bytes) (h : amount.length = 8)
    (h' : ∀ a ∈ amounts, a.length = 8) : Exchange nullTerminated balanceSchema (.named 0) where
  before := []
  x := amountField amount
  y := countField
  after := amounts.map amountField
  hfits z hz := by
    rcases List.mem_cons.mp hz with rfl | hz
    · exact fits_amountField amount h
    · rcases List.mem_cons.mp hz with rfl | hz
      · exact fits_countField
      · obtain ⟨a, ha, rfl⟩ := List.mem_map.mp hz
        exact fits_amountField a (h' a ha)
  hrequired f hf hrequired := by
    have hnone : ∀ f ∈ (balanceSchema.propertyOrdering (.named 0)).fields,
        f.fieldFlags.required = false := by
      decide
    rw [hnone f hf] at hrequired
    cases hrequired
  hnumber := (by decide : 1 ≠ 2)
  honeof f hf g hg _ _ j hj := by
    have hnone : ∀ f ∈ (balanceSchema.propertyOrdering (.named 0)).fields,
        ∀ j, f.presence ≠ .oneof j := by
      intro f hf j
      rcases List.mem_cons.mp hf with rfl | hf
      · exact fun h => by cases h
      · rcases List.mem_cons.mp hf with rfl | hf
        · exact fun h => by cases h
        · cases hf
    exact absurd hj (hnone f hf j)

def plusZero : Bytes := [0, 0, 0, 0, 0, 0, 0, 0]

def minusZero : Bytes := [0, 0, 0, 0, 0, 0, 0, 0x80]

/-- Equal amounts are the same if there is only one. -/
theorem stores_balance (keep : Bool) : (balance plusZero [] rfl (by simp)).Stores keep := by
  refine Exchange.stores_of_distinguishes _ fun f hf _ => ?_
  rcases List.mem_cons.mp hf with rfl | hf
  · refine ⟨fun _ a b ha hb _ => ?_, fun _ _ htype => (by cases htype),
      fun _ hhandler => (by cases hhandler)⟩
    have hone {c : Scalar} (hc : Compared nullTerminated
        { fieldNumber := 1, jsonName := "amount", type := .scalar .double, presence := .optional }
        (balance plusZero [] rfl (by simp)).fields c) : c = ⟨.double, (0 : BitVec 64)⟩ := by
      cases hc with
      | carried hx hnumber hcarries =>
        rcases List.mem_cons.mp hx with rfl | hx
        · cases hcarries with
          | scalar htype =>
            cases htype
            rfl
          | _ htype => cases htype
        · obtain rfl := List.mem_singleton.mp hx
          cases hnumber
      | initial htype hpresence => cases hpresence
    rw [hone ha, hone hb]
  · obtain rfl := List.mem_singleton.mp hf
    exact ⟨fun hstores => absurd ⟨⟨.int32, rfl⟩, .inl rfl⟩ hstores, fun _ _ htype => (by cases htype),
      fun _ hhandler => (by cases hhandler)⟩

/-- An amount and the count, in either order. -/
theorem sameEitherWay_balance :
    (balance plusZero [] rfl (by simp)).SameEitherWay .initial :=
  (balance plusZero [] rfl (by simp)).sameEitherWay .initial (by decide) (stores_balance _)

/-- A negative zero is not stored behind a positive one, unless they are decoded in a row. -/
theorem not_sameEitherWay_balance :
    ¬(balance plusZero [minusZero] rfl (by decide)).SameEitherWay .initial := by
  intro h
  obtain ⟨s₁, m₁, s₂, m₂, h₁, h₂, hmember, -⟩ := h 40 (by decide)
  have hfirst : .scalar ⟨.double, 0#64⟩ = m₁.member (.field 0) :=
    congrArg (fun result => result.2.1.member (.field 0)) h₁
  have hsecond : .scalar ⟨.double, 0x8000000000000000#64⟩ = m₂.member (.field 0) :=
    congrArg (fun result => result.2.1.member (.field 0)) h₂
  rw [hmember, ← hsecond] at hfirst
  exact absurd (Value.scalar.inj hfirst) (by decide)

end QtGrpc.Protobuf.Binary
