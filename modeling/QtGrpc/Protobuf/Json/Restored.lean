import QtGrpc.Protobuf.Json.Restoring

/-!
# Messages that the JSON decoder makes

Every property that is not the default is taken in from its value, and stored when the next one
begins. At the end all properties of the message are found again.
-/

namespace QtGrpc.Protobuf.Json

open Binary (Draft Rebuilding Blank IsFresh IsInitial SameElsewhere StandsFor)

section

variable (env : JsonEnvironment) (custom : CustomDeserializers) (S : Schema)

/-- The loop takes the next property in. A value of the same content is about to be stored, and only
the value of this field was taken out of the object. -/
structure Takes (t : MessageType) (n : Nat) (f : FieldInfo) (obj : JsonObject) (p : Draft)
    (M : Message) (value : Value) (obj' : JsonObject) (v w : Value) (entry : Option Message)
    (m' : Message) : Prop where
  others : ∀ key, key ≠ f.jsonName → obj'.lookup key = obj.lookup key
  ends : ∀ result, Ends env custom S t obj' (n + 1)
      ⟨{ index := some n, propertyValue := v, mapEntry := entry }, m'⟩ result →
    Ends env custom S t obj n p result
  elsewhere : SameElsewhere n f m' M
  plain : f.type.isPureMessage = false → m' = M
  numbers : ∀ j, (m'.oneofState j).1 = (M.oneofState j).1
  convert : S.convert f.type v = some w
  isOf : w.IsOf f.type
  messages : ∀ t, w ≠ .messages t []
  entries : w ≠ .hash []
  same : value.Same S w

end

section

variable {env : JsonEnvironment} {custom : CustomDeserializers} {S : Schema} {t : MessageType}
  {f : FieldInfo} {m M m' : Message} {obj : JsonObject} {n : Nat} {p : Draft} {json : JsonValue}

/-- A value that is read at once. -/
theorem takes_plain {v w value : Value} (hf : (S.propertyOrdering t).fields[n]? = some f)
    (hkey : findKey env obj f.jsonName = some f.jsonName) (hvalue : obj.value f.jsonName = json)
    (hnull : json.isNull = false) (hplain : f.type.isMessage = false)
    (hselect : selectProperty S t n f p.cache p.message =
      ({ index := some n, propertyValue := (S.initializedProperty M n f).2 },
        (S.initializedProperty M n f).1, true))
    (hread : ∀ nested c s, s.scalarValue = json →
      ∃ s', s'.state = s.state ∧ s'.lastError = s.lastError ∧
        deserializeProperty (format env custom S) S nested n f c s M =
          ⟨{ c with propertyValue := v }, s', M, none⟩)
    (hconvert : S.convert f.type v = some w) (hw : w.IsOf f.type) (hsame : value.Same S w) :
    Takes env custom S t n f obj p M value obj v w none M := by
  have hpure : f.type.isPureMessage = false := by
    cases htype : f.type <;> simp_all [PropertyType.isMessage, PropertyType.isPureMessage]
  rw [Binary.initializedProperty_of_not_isPureMessage hpure] at hselect
  refine ⟨fun _ _ => rfl, fun result h => ?_, ⟨fun _ _ => rfl, rfl⟩, fun _ => rfl, fun _ => rfl,
    hconvert, hw, ?_, ?_, hsame⟩
  · have hfound := @findField_plain env f obj n json
      ((S.propertyOrdering t).fields.drop (n + 1)) (some .null) hkey hvalue hnull hplain
    rw [← drop_of_getElem? hf] at hfound
    refine Ends.step hf hfound ⟨rfl, rfl⟩ hselect (fun fuel s rest hstate => ?_) h
    have hscalar : s.scalarValue = json := by
      simp [Deserializer.scalarValue, Deserializer.scalarValue?, hstate]
    obtain ⟨s', hs', herror, hresult⟩ := hread (deserializeMessageField (format env custom S) S fuel)
      { index := some n, propertyValue := (S.initializedProperty M n f).2 } s hscalar
    exact ⟨_, hresult, .inr ⟨rfl, rfl, rfl, herror, _, hs'.trans hstate⟩⟩
  · rintro u rfl
    generalize f.type = type at hw hplain
    cases hw
    cases hplain
  · rintro rfl
    generalize f.type = type at hw hplain
    cases hw
    cases hplain

/-! ## Values that are read at once -/

section

variable {nested : MessageType → Deserializer → Message → Deserializer × Message × Outcome}
  {c : Cache} {s : Deserializer}

/-- A scalar that is read becomes the cached property. -/
theorem deserializeProperty_scalar {k : ScalarKind} {v : k.Carrier} (htype : f.type = .scalar k)
    (h : deserializeScalar env k json = (v, true)) (hs : s.scalarValue = json) :
    deserializeProperty (format env custom S) S nested n f c s M =
      ⟨{ c with propertyValue := .scalar ⟨k, v⟩ }, s.met (.read f json), M, none⟩ := by
  have hscalar : deserializeScalarField env f s c.propertyValue =
      (s.met (.read f json), .scalar ⟨k, v⟩, true) := by
    simp only [deserializeScalarField, htype, hs, deserializeCommon, h, readScalar]
  simp only [deserializeProperty, htype, deserializeWithHandler, format, hscalar, Value.isNull]
  rfl

/-- A list that is read becomes the cached property. -/
theorem deserializeProperty_list {k : ScalarKind} {vs : List k.Carrier} (htype : f.type = .list k)
    (h : deserializeList env k json = (.scalars k vs, true)) (hs : s.scalarValue = json) :
    deserializeProperty (format env custom S) S nested n f c s M =
      ⟨{ c with propertyValue := .scalars k vs }, s.met (.read f json), M, none⟩ := by
  have hscalar : deserializeScalarField env f s c.propertyValue =
      (s.met (.read f json), .scalars k vs, true) := by
    simp only [deserializeScalarField, htype, hs, h, readScalar]
  simp only [deserializeProperty, htype, deserializeWithHandler, format, hscalar, Value.isNull]
  rfl

/-- The name of an enumerator becomes the cached property, as a text. -/
theorem deserializeProperty_enum {e : Nat} {key : String} (htype : f.type = .enum e)
    (hs : s.scalarValue = .string key) :
    deserializeProperty (format env custom S) S nested n f c s M =
      ⟨{ c with propertyValue := .scalar ⟨.string, key⟩ }, s, M, none⟩ := by
  have hrepeated : f.fieldFlags.repeated = false := by
    rw [FieldInfo.fieldFlags_repeated, htype]
    rfl
  have henum : deserializeEnum env f s = (s, .scalar ⟨.string, key⟩, true) := by
    simp only [deserializeEnum, hrepeated, hs]
    rfl
  simp only [deserializeProperty, htype, format, henum]

/-- The names of enumerators become the cached property, as a list of texts. -/
theorem deserializeProperty_enumList {e : Nat} {keys : List String} (htype : f.type = .enumList e)
    (h : deserializeList env .string json = (.scalars .string keys, true))
    (hs : s.scalarValue = json) :
    deserializeProperty (format env custom S) S nested n f c s M =
      ⟨{ c with propertyValue := .scalars .string keys }, s, M, none⟩ := by
  have hrepeated : f.fieldFlags.repeated = true := by
    rw [FieldInfo.fieldFlags_repeated, htype]
    rfl
  have henum : deserializeEnum env f s = (s, .scalars .string keys, true) := by
    simp only [deserializeEnum, hrepeated, if_true, hs, h]
  simp only [deserializeProperty, htype, format, henum]

end

/-! ## Nested messages -/

/-- A message is read from a simple value or from an object. -/
theorem ReadsMessage.shape {u : Nat} (h : ReadsMessage env custom S u m json) :
    isSimple json = true ∨ ∃ o, json = .object o := by
  cases h with
  | object => exact .inr ⟨_, rfl⟩
  | custom hsimple => exact .inl hsimple

/-- A nested message is read into a new one, which is changed in place. -/
theorem takes_message {u : Nat} (hf : (S.propertyOrdering t).fields[n]? = some f)
    (hkey : findKey env obj f.jsonName = some f.jsonName) (hvalue : obj.value f.jsonName = json)
    (htype : f.type = .message u) (hfresh : IsFresh S M n f)
    (hselect : selectProperty S t n f p.cache p.message =
      ({ index := some n, propertyValue := (S.initializedProperty M n f).2 },
        (S.initializedProperty M n f).1, true))
    (h : ReadsMessage env custom S u m json) :
    ∃ sub m', Takes env custom S t n f obj p M (.message u m) obj (.message u sub) (.message u sub)
      none m' := by
  have hfits := (S.propertyOrdering t).presence_fits f (List.mem_of_getElem? hf)
  have hpure : f.type.isPureMessage = true := by rw [htype]; rfl
  have hinitial : (S.initializedProperty M n f).2 = .message u (S.defaultMessage (.named u)) := by
    have hinitial := hfresh.isInitial hfits
    rwa [IsInitial, htype] at hinitial
  rw [hinitial] at hselect
  obtain ⟨sub, hsame, hnested⟩ := h.nested obj (n + 1)
  let m' := Binary.placeProperty (S.initializedProperty M n f).1 n f (.message u sub)
  refine ⟨sub, m', fun _ _ => rfl, fun result hends => ?_, ?_, fun hplain => ?_, fun j => ?_,
    by rw [htype]; rfl, by rw [htype]; exact .message sub, by simp, by simp,
    .message hsame.fields hsame.unknown⟩
  · have hleaves := findField_message (n := n) ((S.propertyOrdering t).fields.drop (n + 1))
      hkey hvalue h.shape hpure
    rw [← drop_of_getElem? hf] at hleaves
    refine Ends.step hf rfl hleaves hselect (fun fuel s rest hstate => ⟨_, rfl, ?_⟩) hends
    obtain ⟨r, hr, hresult⟩ := hnested fuel s rest hstate
    simp only [deserializeProperty, htype, hr]
    rcases hresult with hfuel | ⟨hsub, herror, hrest⟩
    · simp [hfuel]
    · simp only [hsub, if_true]
      exact .inr ⟨trivial, trivial, by simp [m', Binary.placeProperty, hpure], herror, hrest⟩
  · exact (Binary.sameElsewhere_placeProperty _ n f _).trans
      (Binary.sameElsewhere_initializedProperty M n f)
  · rw [hpure] at hplain
    cases hplain
  · rw [Binary.number_placeProperty, Binary.number_initializedProperty]

/-! ## Lists of messages -/

/-- The first item is read into a new message of the list; the others stay in the object. -/
theorem Ends.item {u : Nat} {c : Cache} {item : JsonValue} {items : List JsonValue}
    {acc : List Message} (hf : (S.propertyOrdering t).fields[n]? = some f)
    (hkey : findKey env obj f.jsonName = some f.jsonName)
    (hvalue : obj.value f.jsonName = .array (item :: items)) (htype : f.type = .messageList u)
    (hselect : selectProperty S t n f p.cache p.message = (c, M, true))
    (hc : c.propertyValue = .messages u acc) (h : ReadsMessage env custom S u m item) :
    ∃ sub, m.Same S (.named u) sub ∧ ∀ result,
      Ends env custom S t (obj.insert f.jsonName (.array items)) n
        ⟨{ c with propertyValue := .messages u (acc ++ [sub]) }, M⟩ result →
      Ends env custom S t obj n p result := by
  have hfits := (S.propertyOrdering t).presence_fits f (List.mem_of_getElem? hf)
  have hrepeated : f.fieldFlags.repeated = true := by
    rw [FieldInfo.fieldFlags_repeated, htype]
    rfl
  obtain ⟨sub, hsame, hnested⟩ := h.nested (obj.insert f.jsonName (.array items)) n
  refine ⟨sub, hsame, fun result hends => ?_⟩
  have hleaves := findField_item (n := n) ((S.propertyOrdering t).fields.drop (n + 1))
    hkey hvalue h.shape (fieldFlags_isMessage_of_messageList hfits htype) hrepeated
  rw [← drop_of_getElem? hf] at hleaves
  refine Ends.step hf rfl hleaves hselect (fun fuel s rest hstate => ⟨_, rfl, ?_⟩) hends
  obtain ⟨r, hr, hresult⟩ := hnested fuel s rest hstate
  simp only [deserializeProperty, htype, hc, hr]
  rcases hresult with hfuel | ⟨hsub, herror, hrest⟩
  · simp [hfuel]
  · simp only [hsub, if_true]
    exact .inr ⟨trivial, trivial, trivial, herror, hrest⟩

/-- The other items, and the empty list that is left of them. -/
theorem Ends.items {u : Nat} {c : Cache} {items : List JsonValue} {ms acc : List Message}
    (hd : TellsApart env (S.propertyOrdering t)) (hf : (S.propertyOrdering t).fields[n]? = some f)
    (hkeys : ∀ key, (∀ g ∈ (S.propertyOrdering t).fields, g.jsonName ≠ key) → obj.lookup key = none)
    (hlookup : obj.lookup f.jsonName = some (.array items)) (htype : f.type = .messageList u)
    (hindex : c.index = some n) (hc : c.propertyValue = .messages u acc)
    (h : List.Forall₂ (ReadsMessage env custom S u) ms items) :
    ∃ subs obj', List.Forall₂ (Message.Same S (.named u)) ms subs ∧
      (∀ key, key ≠ f.jsonName → obj'.lookup key = obj.lookup key) ∧
      ∀ result, Ends env custom S t obj' (n + 1)
        ⟨{ c with propertyValue := .messages u (acc ++ subs) }, M⟩ result →
      Ends env custom S t obj n ⟨c, M⟩ result := by
  have hfits := (S.propertyOrdering t).presence_fits f (List.mem_of_getElem? hf)
  induction h generalizing obj c acc with
  | nil =>
    have hkey : findKey env obj f.jsonName = some f.jsonName := by
      rw [findKey_of_tellsApart hd hkeys hf, hlookup]
      rfl
    have hrepeated : f.fieldFlags.repeated = true := by
      rw [FieldInfo.fieldFlags_repeated, htype]
      rfl
    refine ⟨[], obj, .nil, fun _ _ => rfl, fun result hends => Ends.skip hf ?_ ?_⟩
    · rw [drop_of_getElem? hf]
      exact findField_noItem _ hkey (value_of_lookup hlookup)
        (fieldFlags_isMessage_of_messageList hfits htype) hrepeated
    · rw [List.append_nil, ← hc] at hends
      exact hends
  | cons hm _ ih =>
    rename_i m item ms items _
    have hkey : findKey env obj f.jsonName = some f.jsonName := by
      rw [findKey_of_tellsApart hd hkeys hf, hlookup]
      rfl
    have hselect : selectProperty S t n f c M = (c, M, true) := by simp [selectProperty, hindex]
    obtain ⟨sub, hsame, hitem⟩ :=
      Ends.item (p := ⟨c, M⟩) hf hkey (value_of_lookup hlookup) htype hselect hc hm
    obtain ⟨subs, obj', hsubs, hothers, hends⟩ :=
      @ih (obj.insert f.jsonName (.array items)) { c with propertyValue := .messages u (acc ++ [sub]) }
        (acc ++ [sub]) (lookup_insert_none hf hkeys)
        (by rw [lookup_insert, if_pos rfl]) hindex rfl
    refine ⟨sub :: subs, obj', .cons hsame hsubs, fun key hne => ?_, fun result hresult => ?_⟩
    · rw [hothers key hne, lookup_insert, if_neg hne]
    · apply hitem result
      apply hends result
      rwa [List.append_assoc, List.singleton_append]

/-! ## Maps -/

/-- The first entry is read, and found in the map; the others stay in the object. -/
theorem Ends.entry {key : ScalarKind} {value : MapValue} {c : Cache} {e : Scalar × Value}
    {member : String × JsonValue} {members : JsonObject} {acc : List (Scalar × Value)}
    (hf : (S.propertyOrdering t).fields[n]? = some f)
    (hfind : findKey env obj f.jsonName = some f.jsonName)
    (hvalue : obj.value f.jsonName = .object (member :: members)) (htype : f.type = .hash key value)
    (hselect : selectProperty S t n f p.cache p.message = (c, M, true))
    (hc : c.propertyValue = .hash acc) (hkey : key.isMapKey = true) (he : e.1.1 = key)
    (hof : e.2.IsOf (.ofMapValue value)) (hnew : e.1 ∉ acc.map Prod.fst)
    (h : ReadsEntry env custom S key value e member) :
    ∃ w sub, e.2.Same S w ∧ ∀ result,
      Ends env custom S t (obj.insert f.jsonName (.object members)) n
        ⟨{ c with propertyValue := .hash (acc ++ [(e.1, w)]), mapEntry := some sub }, M⟩ result →
      Ends env custom S t obj n p result := by
  have hrepeated : f.fieldFlags.repeated = false := by
    rw [FieldInfo.fieldFlags_repeated, htype]
    rfl
  have hmap : f.fieldFlags.isMap = true := by
    rw [fieldFlags_isMap, htype]
    rfl
  obtain ⟨entry, hstands, hreads⟩ := h
  obtain ⟨sub, hends, hsame⟩ := hreads _ (Binary.blank_addNext key value c.mapEntry)
  obtain ⟨hfound, hfound'⟩ := hstands.found hkey he hof hsame
  refine ⟨S.entryValue value sub, sub, hfound', fun result hresult => ?_⟩
  have hleaves := findField_entry (n := n) ((S.propertyOrdering t).fields.drop (n + 1))
    hfind hvalue hrepeated hmap
  rw [← drop_of_getElem? hf] at hleaves
  refine Ends.step hf rfl hleaves hselect (fun fuel s rest hstate => ⟨_, rfl, ?_⟩) hresult
  have hintercept : (format env custom S).interceptMessageField (.mapEntry key value) s
      (S.addNext key value c.mapEntry) = none := by
    simp [format, interceptMessageField, Deserializer.scalarValue?, hstate]
  simp only [deserializeProperty, htype, hc, deserializeMessageField, hintercept]
  by_cases hfuel : (deserializeMessage (format env custom S) S fuel (.mapEntry key value) s
      (S.addNext key value c.mapEntry)).2.2 = .outOfFuel
  · simp [hfuel]
  · obtain ⟨s', hloop, hrest, herror⟩ := hends fuel [] s _ none hstate hfuel
    have hmessage : deserializeMessage (format env custom S) S fuel (.mapEntry key value) s
        (S.addNext key value c.mapEntry) = (s', sub, .returned true) := hloop
    simp only [hmessage, if_true]
    refine .inr ⟨trivial, ?_, trivial, herror, _, hrest⟩
    rw [hfound, Binary.hashEmplace_of_not_mem acc hnew]

/-- The other entries, and the empty map that is left of them. -/
theorem Ends.entries {key : ScalarKind} {value : MapValue} {c : Cache} {members : JsonObject}
    {entries acc : List (Scalar × Value)} (hd : TellsApart env (S.propertyOrdering t))
    (hf : (S.propertyOrdering t).fields[n]? = some f)
    (hkeys : ∀ key, (∀ g ∈ (S.propertyOrdering t).fields, g.jsonName ≠ key) → obj.lookup key = none)
    (hlookup : obj.lookup f.jsonName = some (.object members)) (htype : f.type = .hash key value)
    (hindex : c.index = some n) (hc : c.propertyValue = .hash acc) (hkey : key.isMapKey = true)
    (hentries : ∀ e ∈ entries, e.1.1 = key ∧ e.2.IsOf (.ofMapValue value))
    (hnodup : ((acc ++ entries).map Prod.fst).Nodup)
    (h : List.Forall₂ (ReadsEntry env custom S key value) entries members) :
    ∃ out entry obj', List.Forall₂ (fun e e' : Scalar × Value => e.1 = e'.1 ∧ e.2.Same S e'.2) entries out ∧
      (∀ key, key ≠ f.jsonName → obj'.lookup key = obj.lookup key) ∧
      ∀ result, Ends env custom S t obj' (n + 1)
        ⟨{ c with propertyValue := .hash (acc ++ out), mapEntry := entry }, M⟩ result →
      Ends env custom S t obj n ⟨c, M⟩ result := by
  induction h generalizing obj c acc with
  | nil =>
    have hfind : findKey env obj f.jsonName = some f.jsonName := by
      rw [findKey_of_tellsApart hd hkeys hf, hlookup]
      rfl
    have hrepeated : f.fieldFlags.repeated = false := by
      rw [FieldInfo.fieldFlags_repeated, htype]
      rfl
    have hmap : f.fieldFlags.isMap = true := by
      rw [fieldFlags_isMap, htype]
      rfl
    refine ⟨[], c.mapEntry, obj, .nil, fun _ _ => rfl, fun result hends => Ends.skip hf ?_ ?_⟩
    · rw [drop_of_getElem? hf]
      exact findField_noEntry _ hfind (value_of_lookup hlookup) hrepeated hmap
    · rw [List.append_nil, ← hc] at hends
      exact hends
  | cons he _ ih =>
    rename_i e member entries members _
    have hfind : findKey env obj f.jsonName = some f.jsonName := by
      rw [findKey_of_tellsApart hd hkeys hf, hlookup]
      rfl
    have hselect : selectProperty S t n f c M = (c, M, true) := by simp [selectProperty, hindex]
    obtain ⟨hkind, hof⟩ := hentries e List.mem_cons_self
    have hnew : e.1 ∉ acc.map Prod.fst := by
      intro hmem
      rw [List.map_append, List.map_cons, List.nodup_append] at hnodup
      exact hnodup.2.2 _ hmem _ List.mem_cons_self rfl
    obtain ⟨w, sub, hsame, hentry⟩ := Ends.entry (p := ⟨c, M⟩) hf hfind (value_of_lookup hlookup) htype
      hselect hc hkey hkind hof hnew he
    obtain ⟨out, entry, obj', hout, hothers, hends⟩ :=
      @ih (obj.insert f.jsonName (.object members))
        { c with propertyValue := .hash (acc ++ [(e.1, w)]), mapEntry := some sub }
        (acc ++ [(e.1, w)]) (lookup_insert_none hf hkeys)
        (by rw [lookup_insert, if_pos rfl]) hindex rfl
        (fun e' he' => hentries e' (List.mem_cons_of_mem _ he')) (by simpa using hnodup)
    refine ⟨(e.1, w) :: out, entry, obj', .cons ⟨rfl, hsame⟩ hout, fun key hne => ?_,
      fun result hresult => ?_⟩
    · rw [hothers key hne, lookup_insert, if_neg hne]
    · apply hentry result
      apply hends result
      rwa [List.append_assoc, List.singleton_append]

/-! ## Properties -/

/-- Lists of messages that say the same in order say the same. -/
theorem same_messages {u : Nat} {ms subs : List Message}
    (h : List.Forall₂ (Message.Same S (.named u)) ms subs) :
    (Value.messages u ms).Same S (.messages u subs) := by
  refine .messages h.length_eq fun k m m' hm hm' => ?_
  obtain ⟨hk, rfl⟩ := List.getElem?_eq_some_iff.mp hm
  obtain ⟨hk', rfl⟩ := List.getElem?_eq_some_iff.mp hm'
  have hsame := h.get hk hk'
  exact .message hsame.fields hsame.unknown

/-- Entries that say the same in some order are maps that say the same. -/
theorem same_hash {entries ordered out : List (Scalar × Value)} (hperm : ordered.Perm entries)
    (h : List.Forall₂ (fun e e' : Scalar × Value => e.1 = e'.1 ∧ e.2.Same S e'.2) ordered out) :
    (Value.hash entries).Same S (.hash out) := by
  obtain ⟨found, hfound, hout⟩ := List.perm_comp_forall₂ hperm.symm h
  refine .hash hout (Binary.map_fst_of_forall₂ hfound) fun k e e' he he' => ?_
  obtain ⟨hk, rfl⟩ := List.getElem?_eq_some_iff.mp he
  obtain ⟨hk', rfl⟩ := List.getElem?_eq_some_iff.mp he'
  exact (hfound.get hk hk').2

/-- A list of messages is read item by item. -/
theorem takes_messages {u : Nat} {items : List JsonValue} {ms : List Message}
    (hd : TellsApart env (S.propertyOrdering t)) (hf : (S.propertyOrdering t).fields[n]? = some f)
    (hkeys : ∀ key, (∀ g ∈ (S.propertyOrdering t).fields, g.jsonName ≠ key) → obj.lookup key = none)
    (hlookup : obj.lookup f.jsonName = some (.array items)) (htype : f.type = .messageList u)
    (hselect : selectProperty S t n f p.cache p.message =
      ({ index := some n, propertyValue := .messages u [] }, M, true)) (hne : items ≠ [])
    (h : List.Forall₂ (ReadsMessage env custom S u) ms items) :
    ∃ subs obj', Takes env custom S t n f obj p M (.messages u ms) obj' (.messages u subs)
      (.messages u subs) none M := by
  have hkey : findKey env obj f.jsonName = some f.jsonName := by
    rw [findKey_of_tellsApart hd hkeys hf, hlookup]
    rfl
  cases h with
  | nil => exact absurd rfl hne
  | cons hm hrest =>
    rename_i m item ms items
    obtain ⟨sub, hsame, hitem⟩ :=
      Ends.item hf hkey (value_of_lookup hlookup) htype hselect rfl hm
    have hlookup' : (obj.insert f.jsonName (.array items)).lookup f.jsonName = some (.array items) := by
      rw [lookup_insert, if_pos rfl]
    obtain ⟨subs, obj', hsubs, hothers, hends⟩ := Ends.items (M := M)
      (c := { index := some n, propertyValue := .messages u ([] ++ [sub]) }) hd hf
      (lookup_insert_none hf hkeys) hlookup' htype rfl rfl hrest
    refine ⟨sub :: subs, obj', fun key hne => ?_, fun result hresult => hitem result (hends result ?_),
      ⟨fun _ _ => rfl, rfl⟩, fun _ => rfl, fun _ => rfl, by rw [htype]; rfl,
      by rw [htype]; exact .messageList _, by simp, by simp, same_messages (.cons hsame hsubs)⟩
    · rw [hothers key hne, lookup_insert, if_neg hne]
    · exact hresult

/-- A map is read entry by entry. -/
theorem takes_entries {key : ScalarKind} {value : MapValue} {members : JsonObject}
    {entries ordered : List (Scalar × Value)} (hd : TellsApart env (S.propertyOrdering t))
    (hf : (S.propertyOrdering t).fields[n]? = some f)
    (hkeys : ∀ key, (∀ g ∈ (S.propertyOrdering t).fields, g.jsonName ≠ key) → obj.lookup key = none)
    (hlookup : obj.lookup f.jsonName = some (.object members)) (htype : f.type = .hash key value)
    (hselect : selectProperty S t n f p.cache p.message =
      ({ index := some n, propertyValue := .hash [] }, M, true)) (hne : members ≠ [])
    (hkey : key.isMapKey = true) (hentries : ∀ e ∈ entries, e.1.1 = key ∧ e.2.IsOf (.ofMapValue value))
    (hnodup : (entries.map Prod.fst).Nodup) (hperm : ordered.Perm entries)
    (h : List.Forall₂ (ReadsEntry env custom S key value) ordered members) :
    ∃ out entry obj', Takes env custom S t n f obj p M (.hash entries) obj' (.hash out) (.hash out)
      entry M := by
  have hfind : findKey env obj f.jsonName = some f.jsonName := by
    rw [findKey_of_tellsApart hd hkeys hf, hlookup]
    rfl
  have hordered (e) (he : e ∈ ordered) := hentries e (hperm.mem_iff.mp he)
  have hnodup' : (ordered.map Prod.fst).Nodup := (hperm.map Prod.fst).nodup_iff.mpr hnodup
  cases h with
  | nil => exact absurd rfl hne
  | cons he hrest =>
    rename_i e member ordered members
    obtain ⟨hkind, hof⟩ := hordered e List.mem_cons_self
    obtain ⟨w, sub, hsame, hentry⟩ := Ends.entry hf hfind (value_of_lookup hlookup) htype
      hselect rfl hkey hkind hof (by simp) he
    have hlookup' : (obj.insert f.jsonName (.object members)).lookup f.jsonName =
        some (.object members) := by
      rw [lookup_insert, if_pos rfl]
    obtain ⟨out, entry, obj', hout, hothers, hends⟩ := Ends.entries (M := M)
      (c := { index := some n, propertyValue := .hash ([] ++ [(e.1, w)]), mapEntry := some sub }) hd hf
      (lookup_insert_none hf hkeys) hlookup' htype rfl rfl hkey
      (fun e' he' => hordered e' (List.mem_cons_of_mem _ he')) hnodup' hrest
    have hall : List.Forall₂ (fun e e' : Scalar × Value => e.1 = e'.1 ∧ e.2.Same S e'.2)
        (e :: ordered) ((e.1, w) :: out) := .cons ⟨rfl, hsame⟩ hout
    refine ⟨(e.1, w) :: out, entry, obj', fun key hne => ?_,
      fun result hresult => hentry result (hends result ?_), ⟨fun _ _ => rfl, rfl⟩, fun _ => rfl,
      fun _ => rfl, by rw [htype]; rfl, ?_, by simp, by simp, same_hash hperm hall⟩
    · rw [hothers key hne, lookup_insert, if_neg hne]
    · exact hresult
    · rw [htype]
      refine .hash (fun e' he' => ?_) ?_ fun e' he' => ?_
      · obtain ⟨e₀, he₀, hfirst, -⟩ := Binary.exists_of_forall₂ hall he'
        rw [← hfirst]
        exact (hordered e₀ he₀).1
      · rw [← Binary.map_fst_of_forall₂ hall]
        exact hnodup'
      · obtain ⟨e₀, he₀, -, hsecond⟩ := Binary.exists_of_forall₂ hall he'
        exact Binary.isOf_of_same (hordered e₀ he₀).2 hsecond

/-- A property with a value is taken in. -/
theorem takes_of_restores {value : Value} (hd : TellsApart env (S.propertyOrdering t))
    (hf : (S.propertyOrdering t).fields[n]? = some f)
    (hkeys : ∀ key, (∀ g ∈ (S.propertyOrdering t).fields, g.jsonName ≠ key) → obj.lookup key = none)
    (hlookup : obj.lookup f.jsonName = some json) (hfresh : IsFresh S M n f)
    (hstore : storeCachedValue S t p.cache p.message = ({}, M, true)) (hindex : p.cache.index ≠ some n)
    (h : Restores env custom S f value (some json)) :
    ∃ obj' v w entry m', Takes env custom S t n f obj p M value obj' v w entry m' := by
  have hfits := (S.propertyOrdering t).presence_fits f (List.mem_of_getElem? hf)
  have hinitial := hfresh.isInitial hfits
  have hkey : findKey env obj f.jsonName = some f.jsonName := by
    rw [findKey_of_tellsApart hd hkeys hf, hlookup]
    rfl
  have hvalue := value_of_lookup hlookup
  have hselect : selectProperty S t n f p.cache p.message =
      ({ index := some n, propertyValue := (S.initializedProperty M n f).2 },
        (S.initializedProperty M n f).1, true) := by
    simp [selectProperty, hindex, hstore]
  cases h with
  | scalar htype hnull hread =>
    exact ⟨obj, _, _, none, M, takes_plain hf hkey hvalue hnull (by rw [htype]; rfl) hselect
      (fun _ _ s hs => ⟨s.met (.read f _), rfl, rfl, deserializeProperty_scalar htype hread hs⟩)
      (by rw [htype]; rfl) (by rw [htype]; exact .scalar _) (.scalar (.refl _))⟩
  | list htype hread =>
    exact ⟨obj, _, _, none, M, takes_plain hf hkey hvalue rfl (by rw [htype]; rfl) hselect
      (fun _ _ s hs => ⟨s.met (.read f _), rfl, rfl, deserializeProperty_list htype hread hs⟩)
      (by rw [htype]; rfl) (by rw [htype]; exact .list _) (.scalars _ _)⟩
  | enumerator htype hread =>
    rename_i e v key
    have hconvert : S.convert f.type (.scalar ⟨.string, key⟩) = some (.enumerator e v) := by
      simp only [htype, Schema.convert, hread, Option.map_some]
    exact ⟨obj, _, _, none, M, takes_plain hf hkey hvalue rfl (by rw [htype]; rfl) hselect
      (fun _ _ _ hs => ⟨_, rfl, rfl, deserializeProperty_enum htype hs⟩) hconvert
      (by rw [htype]; exact .enum _) (.enumerator _ _)⟩
  | enumerators htype hread hback =>
    rename_i e vs items keys
    have hconvert : S.convert f.type (.scalars .string keys) = some (.enumerators e vs) := by
      simp only [htype, Schema.convert, hback, Option.map_some]
    exact ⟨obj, _, _, none, M, takes_plain hf hkey hvalue rfl (by rw [htype]; rfl) hselect
      (fun _ _ _ hs => ⟨_, rfl, rfl, deserializeProperty_enumList htype hread hs⟩) hconvert
      (by rw [htype]; exact .enumList _) (.enumerators _ _)⟩
  | message htype hread =>
    obtain ⟨sub, m', htakes⟩ := takes_message hf hkey hvalue htype hfresh hselect hread
    exact ⟨obj, _, _, none, m', htakes⟩
  | messages htype hne hread =>
    rw [IsInitial, htype] at hinitial
    rw [hinitial, Binary.initializedProperty_of_not_isPureMessage (by rw [htype]; rfl)] at hselect
    obtain ⟨subs, obj', htakes⟩ := takes_messages hd hf hkeys hlookup htype hselect hne hread
    exact ⟨obj', _, _, none, M, htakes⟩
  | entries htype hmapKey hne hentries hnodup hperm hread =>
    rw [IsInitial, htype] at hinitial
    rw [hinitial, Binary.initializedProperty_of_not_isPureMessage (by rw [htype]; rfl)] at hselect
    obtain ⟨out, entry, obj', htakes⟩ := takes_entries hd hf hkeys hlookup htype hselect hne hmapKey
      hentries hnodup hperm hread
    exact ⟨obj', _, _, entry, M, htakes⟩

/-! ## Messages -/

/-- A value that JSON restores is not null. -/
theorem ne_null_of_restores {value : Value} (h : Restores env custom S f value (some json)) :
    value ≠ .null := by
  cases h <;> simp

/-- The properties from one on are found again. -/
theorem Rebuilding.ends (hd : TellsApart env (S.propertyOrdering t))
    (hcustom : ∀ f ∈ (S.propertyOrdering t).fields, ∀ h l, f.type ≠ .custom h l)
    (hfields : (S.propertyOrdering t).fields ≠ []) (fields : List FieldInfo) {n : Nat} {p : Draft}
    (h : Rebuilding S t m n p M) (hdrop : (S.propertyOrdering t).fields.drop n = fields)
    (hkeys : ∀ key, (∀ g ∈ (S.propertyOrdering t).fields, g.jsonName ≠ key) → obj.lookup key = none)
    (hrestores : ∀ i f, n ≤ i → (S.propertyOrdering t).fields[i]? = some f →
      Restores env custom S f (m.messageProperty i f) (obj.lookup f.jsonName)) :
    ∃ m', Ends env custom S t obj n p m' ∧ m'.unknownEntries = [] ∧
      ∀ i f, (S.propertyOrdering t).fields[i]? = some f →
        (m.messageProperty i f).Same S (m'.messageProperty i f) := by
  induction fields generalizing n p M obj with
  | nil =>
    have hn := List.drop_eq_nil_iff.mp hdrop
    refine ⟨M, Ends.done hfields hn h.store, h.unknown, fun i f hf => ?_⟩
    exact h.found i f (Nat.lt_of_lt_of_le (List.getElem?_eq_some_iff.mp hf).1 hn) hf
  | cons f fields ih =>
    have hf : (S.propertyOrdering t).fields[n]? = some f := by
      rw [← List.head?_drop, hdrop]
      rfl
    have hmem := List.mem_of_getElem? hf
    have hrest : (S.propertyOrdering t).fields.drop (n + 1) = fields := by
      rw [← List.drop_drop, hdrop]
      rfl
    have hproperty := hrestores n f (Nat.le_refl n) hf
    cases hlookup : obj.lookup f.jsonName with
    | none =>
      rw [hlookup] at hproperty
      generalize hvalue : m.messageProperty n f = value at hproperty
      cases hproperty with
      | elided hpresence hsame =>
        rw [← hvalue] at hsame
        obtain ⟨m', hends, hfound⟩ := ih (h.elided hf hpresence hsame) hrest hkeys
          fun i g hi hg => hrestores i g (by omega) hg
        refine ⟨m', Ends.skip hf ?_ hends, hfound⟩
        rw [drop_of_getElem? hf]
        apply findField_none
        rw [findKey_of_tellsApart hd hkeys hf, if_pos hlookup]
    | some json =>
      rw [hlookup] at hproperty
      have hvalue := ne_null_of_restores hproperty
      have hfresh : IsFresh S M n f :=
        (h.fresh n f (Nat.le_refl n) hf).resolve_right fun hnull => hvalue hnull.1
      obtain ⟨obj', v, w, entry, m₁, htakes⟩ := takes_of_restores hd hf hkeys hlookup hfresh h.store
        (fun hindex => Nat.lt_irrefl n (h.index n hindex)) hproperty
      have hkeeps := Binary.setterKeeps_of_same (hcustom f hmem) htakes.isOf htakes.same
      obtain ⟨M', hnext⟩ := h.stored hf hkeeps hvalue htakes.elsewhere
        htakes.plain htakes.numbers htakes.convert htakes.isOf htakes.messages htakes.entries htakes.same
      obtain ⟨m', hends, hfound⟩ := ih hnext hrest
        (fun key hkey => by
          rw [htakes.others key (fun heq => hkey f hmem heq.symm)]
          exact hkeys key hkey)
        fun i g hi hg => by
          have hne : g.jsonName ≠ f.jsonName := by
            intro heq
            have hi' := hd n i f g hf hg (by rw [heq]; exact keyMatches_self env f.jsonName)
            omega
          rw [htakes.others _ hne]
          exact hrestores i g (by omega) hg
      exact ⟨m', htakes.ends m' hends, hfound⟩

/-- From an object with a value for every property that is not the default, the decoder makes a
message of the same content. -/
theorem RestoresAll.reads {o : JsonObject} (hd : TellsApart env (S.propertyOrdering t))
    (hcustom : ∀ f ∈ (S.propertyOrdering t).fields, ∀ h l, f.type ≠ .custom h l)
    (hfields : (S.propertyOrdering t).fields ≠ []) (hunknown : m.unknownEntries = [])
    (h : RestoresAll env custom S t m o) : Reads env custom S t m o := by
  intro start hstart
  obtain ⟨m', hends, hnone, hfound⟩ := Rebuilding.ends (m := m) hd hcustom hfields _
    hstart.rebuilding rfl h.keys fun i f _ hf => h.properties i f hf
  exact ⟨m', hends, hfound, by rw [hunknown, hnone]⟩

end

end QtGrpc.Protobuf.Json
