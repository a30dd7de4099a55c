import QtGrpc.Protobuf.Binary.Effects

/-!
# Values that setters tell apart

A setter compares the new value with the old one and keeps the old one if they are equal. That makes
no difference where equal values are the same: no two of the values that a field has on the wire may
be zeros of different signs, the keys of a map of messages may not repeat, since then a map may be
compared with another of its size, and the comparison of a type with a handler must be exact. The
values of a field that grows without being replaced are never compared.
-/

namespace QtGrpc.Protobuf.Binary

variable (env : Environment) (S : Schema)

/-- The payload of a field is a length and a sequence of complete fields. -/
def Wraps (x : WireField) (ys : List WireField) : Prop :=
  ∃ length : Bytes, x.payload = length ++ ys.flatMap WireField.bytes ∧
    IsVarint env length (BitVec.ofNat 64 (ys.flatMap WireField.bytes).length) ∧
    ∀ y ∈ ys, y.Complete env

/-- A scalar that an occurrence of a field brings; every entry of a map starts with a zero. -/
inductive Carries (f : FieldInfo) (x : WireField) : Scalar → Prop where
  | scalar {k : ScalarKind} (htype : f.type = .scalar k) : Carries f x ⟨k, scalarOf env k x.payload⟩
  | element {k : ScalarKind} (htype : f.type = .list k) (hwire : x.wireType = k.wireType) :
      Carries f x ⟨k, scalarOf env k x.payload⟩
  | packed {k : ScalarKind} (htype : f.type = .list k) {length payload : Bytes}
      {payloads : List Bytes} (hpayload : x.payload = length ++ payloads.flatten)
      (hlength : IsVarint env length (BitVec.ofNat 64 payloads.flatten.length))
      (hpayloads : ∀ p ∈ payloads, IsPayload env k.wireType p) (hmem : payload ∈ payloads) :
      Carries f x ⟨k, scalarOf env k payload⟩
  | value {key k : ScalarKind} (htype : f.type = .hash key (.scalar k)) {ys : List WireField}
      {y : WireField} (h : Wraps env x ys) (hy : y ∈ ys) (hnumber : y.fieldNumber = 2) :
      Carries f x ⟨k, scalarOf env k y.payload⟩
  | noValue {key k : ScalarKind} (htype : f.type = .hash key (.scalar k)) : Carries f x ⟨k, k.zero⟩

/-- A key that the entry in a payload may get. -/
inductive EntryKey (key : ScalarKind) (x : WireField) : Scalar → Prop where
  | sent {ys : List WireField} {y : WireField} (h : Wraps env x ys) (hy : y ∈ ys)
      (hnumber : y.fieldNumber = 1) : EntryKey key x ⟨key, scalarOf env key y.payload⟩
  | missing {ys : List WireField} (h : Wraps env x ys) (hnone : ∀ y ∈ ys, y.fieldNumber ≠ 1) :
      EntryKey key x ⟨key, key.zero⟩
  | equal {ys : List WireField} {y : WireField} (h : Wraps env x ys) (hy : y ∈ ys)
      (hnumber : y.fieldNumber = 1)
      (hequal : Scalar.isEqual ⟨key, key.zero⟩ ⟨key, scalarOf env key y.payload⟩ = true) :
      EntryKey key x ⟨key, key.zero⟩

/-- A scalar that the setter of a field may be given or find. -/
inductive Compared (f : FieldInfo) (xs : List WireField) : Scalar → Prop where
  | carried {x : WireField} {a : Scalar} (hx : x ∈ xs) (hnumber : x.fieldNumber = f.fieldNumber)
      (h : Carries env f x a) : Compared f xs a
  | initial {k : ScalarKind} (htype : f.type = .scalar k) (hpresence : f.presence = .mapEntry) :
      Compared f xs ⟨k, k.zero⟩

/-- A single scalar without a presence of its own is stored whatever it is. -/
def AlwaysStores (f : FieldInfo) : Prop :=
  (∃ k, f.type = .scalar k) ∧ (f.presence = .implicit ∨ f.presence = .required)

/-- Where the setter of a field finds two values equal, they are the same. -/
structure Distinguishes (f : FieldInfo) (xs : List WireField) : Prop where
  values : ¬AlwaysStores f → ∀ a b, Compared env f xs a → Compared env f xs b →
    a.isEqual b = true → a = b
  keys : ∀ key t', f.type = .hash key (.message t') →
    (xs.filter (·.fieldNumber == f.fieldNumber)).Pairwise fun x y =>
      ∀ a, EntryKey env key x a → ¬EntryKey env key y a
  handler : ∀ handler, S.handlerOf f.type = some handler → ∀ a b, handler.isEqual a b = true → a = b

/-- A key of one of the entries of a field. -/
def KeyOf (f : FieldInfo) (xs : List WireField) (a : Scalar) : Prop :=
  ∃ x ∈ xs, x.fieldNumber = f.fieldNumber ∧
    ∃ key value, f.type = .hash key value ∧ EntryKey env key x a

/-- A value of a field that consists of scalars it may have, with the keys met so far. -/
structure Gentle (f : FieldInfo) (all done : List WireField) (v : Value) : Prop where
  scalar : ¬AlwaysStores f → (∃ k, f.type = .scalar k) →
    ∀ s, v = .scalar s → Compared env f all s
  list : ∀ k vs, v = .scalars k vs → ∀ a ∈ vs, Compared env f all ⟨k, a⟩
  nodup : ∀ es, v = .hash es → (es.map Prod.fst).Nodup
  keys : ∀ es, v = .hash es → ∀ e ∈ es, KeyOf env f done e.1
  entries : ∀ es, v = .hash es → ∀ e ∈ es, ∀ s, e.2 = .scalar s → Compared env f all s
  custom : ∀ h content, v = .custom h content → ∃ l, f.type = .custom h l

/-- A value that is larger than the old one. -/
structure Grows (f : FieldInfo) (old new : Value) : Prop where
  messages : ∀ t ms t' ms', old = .messages t ms → new = .messages t' ms' → ms.length < ms'.length
  keys : ∀ es es', old = .hash es → new = .hash es' → es.map Prod.fst <+: es'.map Prod.fst
  sizes : ∀ key t', f.type = .hash key (.message t') → ∀ es es', old = .hash es → new = .hash es' →
    es.length < es'.length

variable {env S} {f : FieldInfo} {all done : List WireField}

section

/-- What displaces the content of a oneof is no value of the field. -/
theorem Gentle.displaced {v w : Value} (h : Gentle env f all done v) (hw : Displaced f v w) :
    Gentle env f all done w := by
  rcases hw with rfl | ⟨-, rfl | ⟨t, sub, rfl⟩⟩
  · exact h
  · exact ⟨by simp, by simp, by simp, by simp, by simp, by simp⟩
  · exact ⟨by simp, by simp, by simp, by simp, by simp, by simp⟩

theorem Gentle.mono {done' : List WireField} {v : Value} (h : Gentle env f all done v)
    (hsub : ∀ x ∈ done, x ∈ done') : Gentle env f all done' v := by
  refine ⟨h.scalar, h.list, h.nodup, fun es hes e he => ?_, h.entries, h.custom⟩
  obtain ⟨x, hx, hkey⟩ := h.keys es hes e he
  exact ⟨x, hsub x hx, hkey⟩

/-- Equal scalars of a field are the same, even in maps. -/
theorem sameScalar_exact (hvalues : ∀ a b, Compared env f all a → Compared env f all b →
      a.isEqual b = true → a = b) {v w : Value} (hv : ∀ s, v = .scalar s → Compared env f all s)
    (hw : ∀ s, w = .scalar s → Compared env f all s) (h : v.sameScalar w = true) : v = w := by
  unfold Value.sameScalar at h
  split at h
  · rename_i a b
    rw [hvalues a b (hv a rfl) (hw b rfl) h]
  · simp only [Bool.and_eq_true, beq_iff_eq] at h
    rw [h.1, h.2]
  · cases h

theorem sameList_exact (hvalues : ∀ a b, Compared env f all a → Compared env f all b →
      a.isEqual b = true → a = b) {k : ScalarKind} {vs ws : List k.Carrier}
    (hv : ∀ a ∈ vs, Compared env f all ⟨k, a⟩) (hw : ∀ a ∈ ws, Compared env f all ⟨k, a⟩)
    (h : sameList vs ws = true) : vs = ws := by
  simp only [sameList, Bool.and_eq_true, beq_iff_eq, List.all_eq_true] at h
  obtain ⟨hlength, hall⟩ := h
  refine List.ext_getElem hlength fun n hn hn' => ?_
  have hsame := hall (vs[n], ws[n]) (List.mem_iff_getElem.mpr ⟨n, by simp; omega, by simp⟩)
  have heq := hvalues _ _ (hv vs[n] (List.getElem_mem hn)) (hw ws[n] (List.getElem_mem hn')) hsame
  simpa using heq

theorem lookup_of_mem_nodup {es : List (Scalar × Value)} (hnodup : (es.map Prod.fst).Nodup)
    {e : Scalar × Value} (he : e ∈ es) : es.lookup e.1 = some e.2 := by
  induction es with
  | nil => cases he
  | cons first es ih =>
    rw [List.map_cons, List.nodup_cons] at hnodup
    rcases List.mem_cons.mp he with rfl | he
    · simp [List.lookup]
    · have hne : (e.1 == first.1) = false := by
        rw [beq_eq_false_iff_ne]
        intro heq
        exact hnodup.1 (heq ▸ List.mem_map_of_mem he)
      rw [List.lookup_cons, hne]
      exact ih hnodup.2 he

theorem sameEntries_exact (hvalues : ∀ a b, Compared env f all a → Compared env f all b →
      a.isEqual b = true → a = b) {es es' : List (Scalar × Value)}
    (hv : ∀ e ∈ es, ∀ s, e.2 = .scalar s → Compared env f all s)
    (hw : ∀ e ∈ es', ∀ s, e.2 = .scalar s → Compared env f all s)
    (hnodup : (es'.map Prod.fst).Nodup) (hextends : es.map Prod.fst <+: es'.map Prod.fst)
    (h : sameEntries es es' = true) : es = es' := by
  simp only [sameEntries, Bool.and_eq_true, beq_iff_eq, List.all_eq_true] at h
  obtain ⟨hlength, hall⟩ := h
  have hkeys : es.map Prod.fst = es'.map Prod.fst := hextends.eq_of_length (by simpa using hlength)
  refine List.ext_getElem hlength fun n hn hn' => ?_
  have hkey : es[n].1 = es'[n].1 := by
    have := List.getElem_of_eq hkeys (show n < (es.map Prod.fst).length by simpa using hn)
    simpa using this
  have hsame := hall es[n] (List.getElem_mem hn)
  rw [hkey, lookup_of_mem_nodup hnodup (List.getElem_mem hn'), Option.any_some] at hsame
  have hvalue := sameScalar_exact hvalues (hv _ (List.getElem_mem hn)) (hw _ (List.getElem_mem hn'))
    hsame
  exact Prod.ext hkey hvalue

/-- A number for an enumerator is stored as one. -/
theorem storedValue_enum {e : Nat} (htype : f.type = .enum e) {v : Value} (hv : v.Suits f.type) :
    ∃ e' x, storedValue S f v = .enumerator e' x := by
  rw [htype] at hv
  rcases hv with ⟨e', x, rfl⟩ | ⟨x, rfl⟩
  · exact ⟨e', x, by simp [storedValue, Schema.convert]⟩
  · exact ⟨e, x.setWidth 32, by simp [storedValue, Schema.convert, htype]⟩

/-- Values that the setters of oneofs and of optional fields take for equal are the same. -/
theorem isEqual_exact (hd : Distinguishes env S f all) (hstores : ¬AlwaysStores f)
    {old v : Value} (hold : Gentle env f all done old) (hv : Gentle env f all done v)
    (hsuits : v.Suits f.type) (h : S.isEqual old (storedValue S f v) = true) :
    old = storedValue S f v := by
  have hvalues := hd.values hstores
  rcases storedValue_of_suits (S := S) hsuits with heq | ⟨e, htype⟩
  · rw [heq] at h ⊢
    unfold Schema.isEqual at h
    split at h
    · rename_i k content k' content'
      obtain ⟨l, htype⟩ := hold.custom k content rfl
      obtain ⟨l', htype'⟩ := hv.custom k' content' rfl
      rw [htype] at htype'
      cases htype'
      cases hhandler : S.findHandler k with
      | none => simp [hhandler] at h
      | some handler =>
        rw [hhandler, Option.any_some] at h
        rw [hd.handler handler (by rw [htype]; exact hhandler) content content' h]
    · cases htype : f.type with
      | scalar k =>
        exact sameScalar_exact hvalues (hold.scalar hstores ⟨k, htype⟩)
          (hv.scalar hstores ⟨k, htype⟩) h
      | enum e =>
        obtain ⟨e', x, henum⟩ := storedValue_enum (S := S) htype hsuits
        rw [heq] at henum
        rw [henum] at h ⊢
        cases old <;> simp [Value.sameScalar] at h ⊢
        exact h
      | _ =>
        exfalso
        rw [htype] at hsuits
        simp only [Value.Suits] at hsuits
        obtain ⟨_, hsuits⟩ := hsuits
        first
        | (subst hsuits; cases old <;> cases h)
        | (obtain ⟨_, rfl⟩ := hsuits; cases old <;> cases h)
  · obtain ⟨e', x, henum⟩ := storedValue_enum (S := S) htype hsuits
    rw [henum] at h ⊢
    unfold Schema.isEqual at h
    cases old <;> simp [Value.sameScalar] at h ⊢
    exact h

/-- The setter of a field without a presence of its own stores what it is given. -/
theorem assigned_exact (hd : Distinguishes env S f all) {old v : Value}
    (hold : Gentle env f all done old) (hv : Gentle env f all done v) (hgrows : Grows f old v)
    (hsuits : v.Suits f.type) :
    S.assigned f.type old (storedValue S f v) = storedValue S f v := by
  rcases storedValue_of_suits (S := S) hsuits with heq | ⟨e, htype⟩
  · rw [heq]
    have hequal := @isEqual_exact env S f all done hd
    cases htype : f.type with
    | list k =>
      have hvalues := hd.values (by simp [AlwaysStores, htype])
      rw [htype] at hsuits
      obtain ⟨vs, rfl⟩ := hsuits
      cases old with
      | scalars k' ws =>
        simp only [Schema.assigned]
        split
        · rename_i h
          obtain ⟨rfl, hsame⟩ := h
          rw [sameList_exact hvalues (hold.list _ _ rfl) (hv.list _ _ rfl) hsame]
        · rfl
      | _ => rfl
    | messageList t =>
      rw [htype] at hsuits
      obtain ⟨t', ms, rfl⟩ := hsuits
      cases old with
      | messages t'' ms' =>
        have hlength := hgrows.messages _ _ _ _ rfl rfl
        simp only [Schema.assigned, if_neg (Nat.ne_of_lt hlength)]
      | _ => rfl
    | hash key value =>
      have hvalues := hd.values (by simp [AlwaysStores, htype])
      have hsizes := hgrows.sizes
      rw [htype] at hsuits
      obtain ⟨es, rfl⟩ := hsuits
      cases old with
      | hash es' =>
        cases value with
        | message t =>
          have hlength := hsizes key t htype _ _ rfl rfl
          simp only [Schema.assigned, if_neg (Nat.ne_of_lt hlength)]
        | _ =>
          simp only [Schema.assigned]
          split
          · rename_i h
            rw [sameEntries_exact hvalues (hold.entries _ rfl) (hv.entries _ rfl)
              (hv.nodup _ rfl) (hgrows.keys _ _ rfl rfl) h]
          · rfl
      | _ => cases value <;> rfl
    | custom k l =>
      have hstores : ¬AlwaysStores f := by simp [AlwaysStores, htype]
      simp only [Schema.assigned]
      split
      · rename_i h
        rw [← heq] at h
        rw [hequal hstores hold hv hsuits h, heq]
      · rfl
    | _ => rfl
  · rw [htype]
    rfl

/-- The setter of a field stores what it is given. -/
theorem setMessageProperty_exact (hd : Distinguishes env S f all) {t : MessageType} {i : Nat}
    (hf : (S.propertyOrdering t).fields[i]? = some f) {m : Message} {v : Value}
    (hold : Gentle env f all done (storedIn f i m)) (hv : Gentle env f all done v)
    (hgrows : Grows f (storedIn f i m) v) (hproperty : IsProperty S f v) :
    S.setMessageProperty m i f v = (writeProperty S m i f v, true) := by
  have hfits := (S.propertyOrdering t).presence_fits f (List.mem_of_getElem? hf)
  obtain ⟨w, hconvert, -⟩ := convert_isProperty hproperty
  have hw : storedValue S f v = w := by rw [storedValue, hconvert, Option.getD_some]
  have hequal (hpresence : f.presence ≠ .implicit ∧ f.presence ≠ .required) :=
    @isEqual_exact env S f all done hd (fun h => h.2.elim hpresence.1 hpresence.2) _ _ hold hv
      hproperty.suits
  have hassigned := assigned_exact hd hold hv hgrows hproperty.suits
  rw [hw] at hequal hassigned
  unfold Schema.setMessageProperty writeProperty storedContent FieldInfo.memberAt
  unfold storedIn at hequal hassigned
  rw [hconvert, hw]
  cases hpresence : f.presence with
  | oneof j =>
    simp only [hpresence] at hequal ⊢
    split
    · rename_i h
      obtain ⟨hnumber, hsame⟩ := h
      rw [if_pos hnumber] at hequal
      have heq := hequal (by simp) hsame
      have hnull : (m.oneofState j).2 ≠ .null := by
        intro hnull
        rw [hnull] at hsame
        cases hsame
      rw [Message.setMember_eq_self]
      rw [Message.member_oneof hnull, hnumber, heq]
    · rfl
  | optional | mapEntry =>
    simp only [hpresence] at hequal ⊢
    split
    · rename_i hsame
      rw [Message.setMember_eq_self (hequal (by simp) hsame).symm]
    · rfl
  | implicit | required =>
    simp only [hpresence] at hassigned ⊢
    rw [hassigned]

end

/-! ## The entry in the payload of a map field -/

section

variable {keep : Bool} {key : ScalarKind} {value : MapValue} {x : WireField} {sub : Message}

/-- The key of an entry. -/
def keyField (key : ScalarKind) : FieldInfo :=
  { fieldNumber := 1, jsonName := "key", type := .scalar key, presence := .mapEntry }

/-- The value of an entry. -/
def valueField (value : MapValue) : FieldInfo :=
  { fieldNumber := 2, jsonName := "value", type := .ofMapValue value, presence := .mapEntry }

theorem Displaced.eq_of_mapEntry {g : FieldInfo} (hg : g.presence = .mapEntry) {v w : Value}
    (h : Displaced g v w) : w = v := by
  rcases h with h | ⟨⟨j, hj⟩, -⟩
  · exact h
  · rw [hg] at hj
    cases hj

/-- The setter of an entry keeps an equal value. -/
theorem storedIn_setMessageProperty_mapEntry {g : FieldInfo} (hg : g.presence = .mapEntry) {i : Nat}
    {m : Message} {v : Value} (hv : IsProperty S g v) :
    storedIn g i (S.setMessageProperty m i g v).1 =
      if S.isEqual (storedIn g i m) (storedValue S g v) then storedIn g i m
      else storedValue S g v := by
  obtain ⟨w, hconvert, -⟩ := convert_isProperty hv
  simp only [storedValue, hconvert, Option.getD_some, storedIn, Schema.setMessageProperty, hg]
  split <;> simp

/-- The cached property of an entry is written like this. -/
theorem Draft.Sound.store_entry {t : MessageType} {g : FieldInfo} (hg : g.presence = .mapEntry)
    {i : Nat} (hf : (S.propertyOrdering t).fields[i]? = some g) {p : Draft} (hp : p.Sound S t)
    {c : Cache} {m : Message} (hstore : storeCachedValue S t p.cache p.message = (c, m, true)) :
    p.cache.index ≠ some i ∧ storedIn g i m = storedIn g i p.message ∨
      p.cache.index = some i ∧ IsProperty S g p.cache.propertyValue ∧
        storedIn g i m = storedIn g i
          (S.setMessageProperty p.message i g p.cache.propertyValue).1 := by
  by_cases hi : p.cache.index = some i
  · refine .inr ⟨hi, ?_, by rw [hp.store_cached hi hf hstore]⟩
    exact hp.property hi hf
  · exact .inl ⟨hi, (hp.store_displaced hf hi hstore).eq_of_mapEntry hg⟩

/-- What is true of the first content of a field of an entry and of all values read for it, is true
of its content. -/
theorem Decodes.entry_content {t : MessageType} {g : FieldInfo} (hg : g.presence = .mapEntry)
    {i : Nat} (hf : (S.propertyOrdering t).fields[i]? = some g)
    (hpure : g.type.isPureMessage = false) {P : Value → Prop} {ys : List WireField} {p q : Draft}
    (h : Decodes env S keep t ys p q) (hp : p.Sound S t) (hindex : p.cache.index = none)
    (hstored : P (storedIn g i p.message))
    (hread : ∀ y ∈ ys, y.fieldNumber = g.fieldNumber → ∀ entry v entry' v',
      Turns env S keep y g entry v entry' v' → P (storedValue S g v')) :
    P (storedIn g i q.message) ∧
      (q.cache.index = some i → P (storedValue S g q.cache.propertyValue)) := by
  refine h.run (I := fun _ r => P (storedIn g i r.message) ∧
    (r.cache.index = some i → P (storedValue S g r.cache.propertyValue))) hp
    ⟨hstored, by simp [hindex]⟩ fun xs y zs r r' hsplit hr hI hy => ?_
  have hturns (hindex : (S.propertyOrdering t).indexOfFieldNumber y.fieldNumber = some i) :=
    hread y (by rw [hsplit]; simp) (fieldNumber_of_indexOfFieldNumber hindex hf).symm
  cases hy.effect hr hf hpure with
  | skipped hx hcache hkept =>
    rw [hcache, hkept]
    exact hI
  | other hx hk hcached hq hkept =>
    rw [hkept.eq_of_mapEntry hg, hq]
    exact ⟨hI.1, fun heq => absurd (Option.some.inj heq) hk⟩
  | written hx hk hcached hq hkept =>
    rw [hkept.eq_of_mapEntry hg, hq,
      storedIn_setMessageProperty_mapEntry hg (hr.property hcached hf)]
    refine ⟨?_, fun heq => absurd (Option.some.inj heq) hk⟩
    split
    · exact hI.1
    · exact hI.2 hcached
  | first hx hcached hq m hm hkept hr' =>
    rw [hkept, hm.eq_of_mapEntry hg]
    exact ⟨hI.1, fun _ => hturns hx _ _ _ _ hr'⟩
  | next hx hcached hq hkept hr' =>
    rw [hkept]
    exact ⟨hI.1, fun _ => hturns hx _ _ _ _ hr'⟩

/-- The scalar in the value of an entry was sent, or the entry started with it. -/
theorem Nested.entry_value (h : Nested env S keep (.mapEntry key value) x
      (S.defaultMessage (.mapEntry key value)) sub) (htype : f.type = .hash key value) :
    ∀ s, S.entryValue value sub = .scalar s → Carries env f x s := by
  obtain ⟨length, ys, r, c, hpayload, hlength, -, hdecodes, hstore, -⟩ := h
  have hwraps : Wraps env x ys := ⟨length, hpayload, hlength, hdecodes.complete⟩
  have hf : (S.propertyOrdering (.mapEntry key value)).fields[1]? = some (valueField value) := rfl
  have hstart := Draft.sound_new S _ (defaultMessage_wellFormed S (.mapEntry key value))
  by_cases hmessage : ∃ n, value = .message n
  · obtain ⟨n, rfl⟩ := hmessage
    intro s hs
    cases hs
  · have hpure : (valueField value).type.isPureMessage = false := by
      cases value <;> simp_all [valueField, PropertyType.ofMapValue, PropertyType.isPureMessage]
    have hcontent := hdecodes.entry_content (P := fun v => ∀ s, v = .scalar s → Carries env f x s)
      rfl hf hpure hstart rfl ?_ ?_
    · have hsub : ∀ s, storedIn (valueField value) 1 sub = .scalar s → Carries env f x s := by
        rcases (hdecodes.sound hstart).store_entry rfl hf hstore with ⟨-, heq⟩ | ⟨hi, hv, heq⟩
        · rw [heq]
          exact hcontent.1
        · rw [heq, storedIn_setMessageProperty_mapEntry rfl hv]
          split
          · exact hcontent.1
          · exact hcontent.2 hi
      cases value with
      | message n => exact absurd ⟨n, rfl⟩ hmessage
      | _ => exact hsub
    · intro s hs
      cases value with
      | message n => exact absurd ⟨n, rfl⟩ hmessage
      | enum e => cases hs
      | scalar k =>
        cases hs
        exact .noValue htype
    · intro y hy hnumber entry v entry' v' hturns s hs
      cases value with
      | message n => exact absurd ⟨n, rfl⟩ hmessage
      | enum e =>
        obtain ⟨e', n, henum⟩ := storedValue_enum (S := S) (f := valueField (.enum e)) rfl
          hturns.suits
        rw [henum] at hs
        cases hs
      | scalar k =>
        rw [hturns.scalar rfl] at hs
        cases hs
        exact .value htype hwraps hy hnumber

/-- What is written over a key an entry may have is such a key. -/
theorem entryKey_written {ys : List WireField} (hwraps : Wraps env x ys) {y : WireField}
    (hy : y ∈ ys) (hnumber : y.fieldNumber = 1) {m : Message} {s : Scalar}
    (hs : storedIn (keyField key) 0 m = .scalar s)
    (hold : s = ⟨key, key.zero⟩ ∨ EntryKey env key x s) :
    ∃ s', storedIn (keyField key) 0 (S.setMessageProperty m 0 (keyField key)
      (.scalar ⟨key, scalarOf env key y.payload⟩)).1 = .scalar s' ∧ EntryKey env key x s' := by
  have hv : IsProperty S (keyField key) (.scalar ⟨key, scalarOf env key y.payload⟩) :=
    isProperty_of_suits ⟨_, rfl⟩ rfl
  have hstored : storedValue S (keyField key) (.scalar ⟨key, scalarOf env key y.payload⟩) =
      .scalar ⟨key, scalarOf env key y.payload⟩ := by
    simp [storedValue, Schema.convert, keyField]
  rw [storedIn_setMessageProperty_mapEntry rfl hv, hs, hstored]
  split
  · rename_i hsame
    refine ⟨s, rfl, ?_⟩
    rcases hold with rfl | hkey
    · exact .equal hwraps hy hnumber hsame
    · exact hkey
  · exact ⟨_, rfl, .sent hwraps hy hnumber⟩

/-- The key of an entry was sent, or the entry started with it. -/
theorem Nested.entry_key (h : Nested env S keep (.mapEntry key value) x
      (S.defaultMessage (.mapEntry key value)) sub) : EntryKey env key x (entryKey key sub) := by
  obtain ⟨length, ys, r, c, hpayload, hlength, -, hdecodes, hstore, -⟩ := h
  have hwraps : Wraps env x ys := ⟨length, hpayload, hlength, hdecodes.complete⟩
  have hf : (S.propertyOrdering (.mapEntry key value)).fields[0]? = some (keyField key) := rfl
  have hstart := Draft.sound_new S _ (defaultMessage_wellFormed S (.mapEntry key value))
  let stored (m : Message) : Value := storedIn (keyField key) 0 m
  have hrun := hdecodes.run (I := fun xs r =>
    (∃ s, stored r.message = .scalar s ∧ (s = ⟨key, key.zero⟩ ∨ EntryKey env key x s)) ∧
    (r.cache.index = some 0 → ∃ y ∈ ys, y.fieldNumber = 1 ∧
      r.cache.propertyValue = .scalar ⟨key, scalarOf env key y.payload⟩) ∧
    (r.cache.index ≠ some 0 → (∀ y ∈ xs, y.fieldNumber ≠ 1) ∨
      ∃ s, stored r.message = .scalar s ∧ EntryKey env key x s)) hstart
    ⟨⟨_, rfl, .inl rfl⟩, by simp, by simp⟩ fun xs y zs r r' hsplit hr hI hy => ?_
  · obtain ⟨⟨s, hs, hold⟩, hcached, hwritten⟩ := hrun
    have hkey : ∃ s, stored sub = .scalar s ∧ EntryKey env key x s := by
      rcases (hdecodes.sound hstart).store_entry rfl hf hstore with ⟨hi, heq⟩ | ⟨hi, hv, heq⟩
      · simp only [stored, heq]
        rcases hwritten hi with hnone | hkey
        · rcases hold with rfl | hkey
          · exact ⟨_, hs, .missing hwraps hnone⟩
          · exact ⟨s, hs, hkey⟩
        · exact hkey
      · obtain ⟨y, hy, hnumber, hvalue⟩ := hcached hi
        simp only [stored, heq, hvalue]
        exact entryKey_written hwraps hy hnumber hs hold
    obtain ⟨s', hs', hkey⟩ := hkey
    have hmember : sub.member (.field 0) = .scalar s' := hs'
    rwa [entryKey, hmember]
  · obtain ⟨⟨s, hs, hold⟩, hcached, hwritten⟩ := hI
    have hy' : y ∈ ys := by rw [hsplit]; simp
    have hread (hindex : (S.propertyOrdering (.mapEntry key value)).indexOfFieldNumber
        y.fieldNumber = some 0) : y.fieldNumber = 1 :=
      (fieldNumber_of_indexOfFieldNumber hindex hf).symm
    have hother {k : Nat} (hx : (S.propertyOrdering (.mapEntry key value)).indexOfFieldNumber
        y.fieldNumber = some k) (hk : k ≠ 0) : y.fieldNumber ≠ 1 := by
      intro heq
      rw [heq, show (1 : Nat) = (keyField key).fieldNumber from rfl,
        indexOfFieldNumber_of_getElem? hf] at hx
      exact hk (Option.some.inj hx).symm
    cases hy.effect hr hf rfl with
    | skipped hx hcache hkept =>
      rw [hcache]
      simp only [stored, hkept]
      refine ⟨⟨s, hs, hold⟩, hcached, fun hi => (hwritten hi).imp_left fun hnone => ?_⟩
      intro z hz
      rcases List.mem_append.mp hz with hz | hz
      · exact hnone z hz
      · obtain rfl := List.mem_singleton.mp hz
        intro heq
        rw [heq, show (1 : Nat) = (keyField key).fieldNumber from rfl,
          indexOfFieldNumber_of_getElem? hf] at hx
        cases hx
    | other hx hk hnot hq hkept =>
      rw [hq]
      simp only [stored, hkept.eq_of_mapEntry rfl]
      refine ⟨⟨s, hs, hold⟩, fun heq => absurd (Option.some.inj heq) hk,
        fun _ => (hwritten hnot).imp_left fun hnone => ?_⟩
      intro z hz
      rcases List.mem_append.mp hz with hz | hz
      · exact hnone z hz
      · obtain rfl := List.mem_singleton.mp hz
        exact hother hx hk
    | written hx hk hi hq hkept =>
      obtain ⟨z, hz, hnumber, hvalue⟩ := hcached hi
      obtain ⟨s', hs', hkey⟩ := entryKey_written (S := S) hwraps hz hnumber hs hold
      rw [hq]
      simp only [stored, hkept.eq_of_mapEntry rfl, hvalue]
      exact ⟨⟨s', hs', .inr hkey⟩, fun heq => absurd (Option.some.inj heq) hk,
        fun _ => .inr ⟨s', hs', hkey⟩⟩
    | first hx hnot hq m hm hkept hturns =>
      simp only [stored, hkept, hm.eq_of_mapEntry rfl]
      exact ⟨⟨s, hs, hold⟩, fun _ => ⟨y, hy', hread hx, hturns.scalar rfl⟩,
        fun hi => absurd hq hi⟩
    | next hx hi hq hkept hturns =>
      simp only [stored, hkept]
      exact ⟨⟨s, hs, hold⟩, fun _ => ⟨y, hy', hread hx, hturns.scalar rfl⟩,
        fun hi => absurd hq hi⟩

end

/-! ## Along the fields of a message -/

theorem keys_hashEmplace (es : List (Scalar × Value)) (key : Scalar) (v : Value) :
    (hashEmplace es key v).map Prod.fst =
      if key ∈ es.map Prod.fst then es.map Prod.fst else es.map Prod.fst ++ [key] := by
  induction es with
  | nil => simp [hashEmplace]
  | cons e es ih =>
    rw [hashEmplace]
    split
    · rename_i h
      simp [h]
    · rename_i h
      by_cases hmem : key ∈ es.map Prod.fst
      · rw [if_pos hmem] at ih
        rw [List.map_cons, List.map_cons, ih, if_pos (List.mem_cons_of_mem _ hmem)]
      · rw [if_neg hmem] at ih
        have hnew : key ∉ e.1 :: es.map Prod.fst := by
          rw [List.mem_cons]
          rintro (heq | hmem')
          · exact h heq.symm
          · exact hmem hmem'
        rw [List.map_cons, List.map_cons, ih, if_neg hnew, List.cons_append]

theorem mem_hashEmplace {es : List (Scalar × Value)} {key : Scalar} {v : Value}
    {e : Scalar × Value} (h : e ∈ hashEmplace es key v) : e ∈ es ∨ e = (key, v) := by
  induction es with
  | nil => exact .inr (List.mem_singleton.mp h)
  | cons first es ih =>
    rw [hashEmplace] at h
    split at h
    · rename_i hkey
      rcases List.mem_cons.mp h with rfl | h
      · exact .inr (by rw [hkey])
      · exact .inl (List.mem_cons_of_mem _ h)
    · rcases List.mem_cons.mp h with rfl | h
      · exact .inl List.mem_cons_self
      · exact (ih h).imp_left (List.mem_cons_of_mem _)

/-- A property whose type does not grow is no larger than any other. -/
theorem grows_of_suits {old v : Value} (hv : v.Suits f.type) (hlist : ∀ t, f.type ≠ .messageList t)
    (hmap : f.type.isMap = false) : Grows f old v := by
  refine ⟨?_, ?_, ?_⟩
  · rintro t ms t' ms' - rfl
    cases htype : f.type <;> simp [htype, Value.Suits] at hv
    exact absurd htype (hlist _)
  · rintro es es' - rfl
    cases htype : f.type <;> simp [htype, Value.Suits] at hv
    simp [htype, PropertyType.isMap] at hmap
  · intro key t' htype
    simp [htype, PropertyType.isMap] at hmap

/-- The values of a type that has no scalars are gentle. -/
theorem gentle_of_suits {v : Value} (hv : v.Suits f.type) (hscalar : ∀ k, f.type ≠ .scalar k)
    (hlist : ∀ k, f.type ≠ .list k) (hmap : f.type.isMap = false)
    (hcustom : ∀ k l, f.type ≠ .custom k l) : Gentle env f all done v := by
  refine ⟨fun _ ⟨k, htype⟩ => absurd htype (hscalar k), ?_, ?_, ?_, ?_, ?_⟩
  · rintro k vs rfl
    cases htype : f.type <;> simp [htype, Value.Suits] at hv
    exact absurd htype (hlist _)
  · rintro es rfl
    cases htype : f.type <;> simp [htype, Value.Suits] at hv
    simp [htype, PropertyType.isMap] at hmap
  · rintro es rfl
    cases htype : f.type <;> simp [htype, Value.Suits] at hv
    simp [htype, PropertyType.isMap] at hmap
  · rintro es rfl
    cases htype : f.type <;> simp [htype, Value.Suits] at hv
    simp [htype, PropertyType.isMap] at hmap
  · rintro k content rfl
    cases htype : f.type <;> simp [htype, Value.Suits] at hv
    exact absurd htype (hcustom _ _)

/-- The zero an entry starts with is the one it would be reset to. -/
theorem addNext_exact (hd : Distinguishes env S f all) {x : WireField} {key : ScalarKind}
    {value : MapValue} (hx : x ∈ all) (hnumber : x.fieldNumber = f.fieldNumber)
    (htype : f.type = .hash key value) {entry : Message}
    (hentry : ∀ s, S.entryValue value entry = .scalar s → Carries env f x s) :
    S.addNext key value (some entry) = S.addNext key value none := by
  cases value with
  | message t => rfl
  | enum e => rfl
  | scalar k =>
    unfold Schema.addNext
    simp only [Option.map_some, Option.map_none]
    split
    · rename_i k' old hk hold
      cases hk
      split
      · rename_i hsame
        have hcarries := hentry old (Option.some.inj hold)
        have hzero : Carries env f x ⟨k, k.zero⟩ := .noValue htype
        have heq := hd.values (by simp [AlwaysStores, htype]) _ _ (.carried hx hnumber hcarries)
          (.carried hx hnumber hzero) hsame
        rw [heq]
        exact Message.setMember_eq_self rfl
      · rfl
    · rfl

/-- What an occurrence makes of a property consists of scalars that the field may have, and is
larger than before. -/
theorem Turns.gentle (hd : Distinguishes env S f all) {keep : Bool} {x : WireField}
    {entry entry' : Option Message} {v v' old : Value} (hx : x ∈ all)
    (hnumber : x.fieldNumber = f.fieldNumber)
    (hfresh : ∀ key t', f.type = .hash key (.message t') →
      ∀ a, EntryKey env key x a → ¬KeyOf env f done a)
    (h : Turns env S keep x f entry v entry' v')
    (hv : (∀ k, f.type ≠ .scalar k) → Gentle env f all done v)
    (hold : (∃ t, f.type = .messageList t) ∨ f.type.isMap = true → v = old ∨ Grows f old v)
    (hentry : ∀ key value, f.type = .hash key value →
      S.addNext key value entry = S.addNext key value none) :
    Gentle env f all (done ++ [x]) v' ∧ Grows f old v' ∧
      ∀ key value, f.type = .hash key value →
        S.addNext key value entry' = S.addNext key value none := by
  have hsuits := h.suits
  cases h with
  | plain htaken =>
    have hmessage := htaken.isMessage
    have hmap : f.type.isMap = false := by
      cases htype : f.type <;> simp_all [PropertyType.isMap, PropertyType.isMessage]
    have hgrows : Grows f old v' := by
      refine grows_of_suits hsuits (fun t htype => ?_) hmap
      simp [htype, PropertyType.isMessage] at hmessage
    refine ⟨?_, hgrows, fun key value htype => by simp [htype, PropertyType.isMap] at hmap⟩
    cases htype : f.type with
    | scalar k =>
      have hcarries : Carries env f x ⟨k, scalarOf env k x.payload⟩ := .scalar htype
      rw [htype] at htaken
      cases htaken with
      | scalar hwire =>
        refine ⟨fun _ _ s hs => ?_, by simp, by simp, by simp, by simp, by simp⟩
        cases hs
        exact .carried hx hnumber hcarries
    | list k =>
      have hgentle := hv (by simp [htype])
      rw [htype] at htaken
      cases htaken with
      | packed hk hwire hpayload hlength hsize hpayloads vs =>
        refine ⟨by simp [htype], ?_, by simp, by simp, by simp, by simp⟩
        intro k' ws hws a ha
        cases hws
        obtain ⟨payload, hmem, rfl⟩ := List.mem_map.mp ha
        exact .carried hx hnumber (.packed htype hpayload hlength hpayloads hmem)
      | element hwire vs =>
        refine ⟨by simp [htype], ?_, by simp, by simp, by simp, by simp⟩
        intro k' ws hws a ha
        cases hws
        rcases List.mem_append.mp ha with ha | ha
        · exact hgentle.list k vs rfl a ha
        · obtain rfl := List.mem_singleton.mp ha
          exact .carried hx hnumber (.element htype hwire)
    | _ =>
      first
      | (simp [htype, PropertyType.isMessage] at hmessage; done)
      | exact gentle_of_suits hsuits (by simp [htype]) (by simp [htype]) hmap (by simp [htype])
  | message htype h =>
    exact ⟨gentle_of_suits hsuits (by simp [htype]) (by simp [htype])
      (by simp [htype, PropertyType.isMap]) (by simp [htype]),
      grows_of_suits hsuits (by simp [htype]) (by simp [htype, PropertyType.isMap]),
      by simp [htype]⟩
  | messageList htype h =>
    rename_i t' t'' ms sub
    refine ⟨gentle_of_suits hsuits (by simp [htype]) (by simp [htype])
      (by simp [htype, PropertyType.isMap]) (by simp [htype]), ?_, by simp [htype]⟩
    refine ⟨?_, by simp, by simp⟩
    rintro n ms₀ n' ms' hms₀ heq
    cases heq
    rw [List.length_append, List.length_singleton]
    rcases hold (.inl ⟨t', htype⟩) with rfl | hgrows
    · cases hms₀
      omega
    · have := hgrows.messages _ _ _ _ hms₀ rfl
      omega
  | entry htype h =>
    rename_i key value es sub
    have hstart : S.addNext key value none = S.defaultMessage (.mapEntry key value) := by
      cases value <;> rfl
    rw [hentry _ _ htype, hstart] at h
    have hkey := h.entry_key
    have hvalue := h.entry_value htype
    have hgentle := hv (by simp [htype])
    have hisMap : f.type.isMap = true := by rw [htype]; rfl
    refine ⟨⟨by simp [htype], by simp, ?_, ?_, ?_, by simp⟩, ⟨by simp, ?_, ?_⟩, ?_⟩
    · intro es' hes'
      cases hes'
      rw [keys_hashEmplace]
      split
      · exact hgentle.nodup es rfl
      · rename_i hnew
        rw [← List.concat_eq_append]
        exact List.Nodup.concat hnew (hgentle.nodup es rfl)
    · intro es' hes' e he
      cases hes'
      rcases mem_hashEmplace he with he | rfl
      · obtain ⟨y, hy, hkeyOf⟩ := hgentle.keys es rfl e he
        exact ⟨y, List.mem_append_left _ hy, hkeyOf⟩
      · exact ⟨x, by simp, hnumber, key, value, htype, hkey⟩
    · intro es' hes' e he s hs
      cases hes'
      rcases mem_hashEmplace he with he | rfl
      · exact hgentle.entries es rfl e he s hs
      · exact .carried hx hnumber (hvalue s hs)
    · intro es₀ es' hes₀ hes'
      cases hes'
      rw [keys_hashEmplace]
      have hextends : es₀.map Prod.fst <+: es.map Prod.fst := by
        rcases hold (.inr hisMap) with rfl | hgrows
        · cases hes₀
          exact List.prefix_rfl
        · exact hgrows.keys _ _ hes₀ rfl
      split
      · exact hextends
      · exact hextends.trans (List.prefix_append _ _)
    · intro key' t' htype' es₀ es' hes₀ hes'
      cases hes'
      rw [htype] at htype'
      cases htype'
      have hnew : entryKey key sub ∉ es.map Prod.fst := by
        intro hmem
        obtain ⟨e, he, heq⟩ := List.mem_map.mp hmem
        exact hfresh key t' htype _ hkey (heq ▸ hgentle.keys es rfl e he)
      have hlength : (hashEmplace es (entryKey key sub) (S.entryValue (.message t') sub)).length =
          es.length + 1 := by
        rw [← List.length_map (f := Prod.fst), keys_hashEmplace, if_neg hnew]
        simp
      rw [hlength]
      rcases hold (.inr hisMap) with rfl | hgrows
      · cases hes₀
        omega
      · have := hgrows.sizes key t' htype _ _ hes₀ rfl
        omega
    · intro key' value' htype'
      rw [htype] at htype'
      cases htype'
      exact addNext_exact hd hx hnumber htype hvalue
  | custom hhandler h =>
    rename_i handler k content object
    obtain ⟨k', l, htype⟩ : ∃ k' l, f.type = .custom k' l := by
      cases htype : f.type <;> simp_all [Schema.handlerOf]
    have hgentle := hv (by simp [htype])
    refine ⟨⟨by simp [htype], by simp, by simp, by simp, by simp, ?_⟩,
      grows_of_suits hsuits (by simp [htype]) (by simp [htype, PropertyType.isMap]),
      by simp [htype]⟩
    intro k'' content' heq
    cases heq
    exact hgentle.custom k content rfl

section

variable {keep : Bool} {t : MessageType} {i : Nat} {p q : Draft}

variable (env S i f all done p) in
/-- The content of a field and its cached property consist of scalars that it may have, and the
cached property is larger than what it will be compared with. -/
structure Tame : Prop where
  stored : Gentle env f all done (storedIn f i p.message)
  cached : p.cache.index = some i → Gentle env f all done p.cache.propertyValue ∧
    Grows f (storedIn f i p.message) p.cache.propertyValue ∧
      ∀ key value, f.type = .hash key value →
        S.addNext key value p.cache.mapEntry = S.addNext key value none

theorem Gentle.storedValue {v : Value} (h : Gentle env f all done v) (hv : v.Suits f.type) :
    Gentle env f all done (storedValue S f v) := by
  rcases storedValue_of_suits (S := S) hv with heq | ⟨e, htype⟩
  · rwa [heq]
  · exact gentle_of_suits (storedValue_suits hv) (by simp [htype]) (by simp [htype])
      (by simp [htype, PropertyType.isMap]) (by simp [htype])

/-- The setter stores the property in the cache as it is. -/
theorem Tame.exact (h : Tame env S f all done i p) (hd : Distinguishes env S f all)
    (hp : p.Sound S t) (hf : (S.propertyOrdering t).fields[i]? = some f)
    (hi : p.cache.index = some i) :
    S.setMessageProperty p.message i f p.cache.propertyValue =
      (writeProperty S p.message i f p.cache.propertyValue, true) := by
  obtain ⟨hgentle, hgrows, -⟩ := h.cached hi
  exact setMessageProperty_exact hd hf h.stored hgentle hgrows (hp.property hi hf)

/-- The property a decoder goes on with is what the message holds, or a new one. -/
theorem initializedProperty_cases (hpure : f.type.isPureMessage = false) (m : Message) :
    (S.initializedProperty m i f).2 = storedIn f i m ∨
      (S.initializedProperty m i f).2 = f.type.initialValue S ∧
        (f.presence = .optional ∨ ∃ j, f.presence = .oneof j) := by
  unfold Schema.initializedProperty storedIn
  cases htype : f.type with
  | message t' => simp [htype, PropertyType.isPureMessage] at hpure
  | _ =>
    cases hpresence : f.presence with
    | oneof j =>
      by_cases hholds : holdsField (m.oneofState j) f.fieldNumber = true
      · have hnumber : (m.oneofState j).1 = f.fieldNumber := by
          simp only [holdsField, Bool.and_eq_true, beq_iff_eq] at hholds
          exact hholds.1.1
        left
        simp only [if_pos hholds, if_pos hnumber]
      · right
        simp only [if_neg hholds]
        exact ⟨trivial, .inr ⟨j, rfl⟩⟩
    | optional =>
      by_cases hnull : (m.member (.field i)).isNull = true
      · right
        simp only [if_pos hnull]
        exact ⟨trivial, .inl trivial⟩
      · left
        simp only [hnull, Bool.false_eq_true, if_false]
    | _ => exact .inl rfl

/-- A new property has no scalars. -/
theorem gentle_initialValue (hscalar : ∀ k, f.type ≠ .scalar k) :
    Gentle env f all done (f.type.initialValue S) := by
  cases htype : f.type with
  | scalar k => exact absurd htype (hscalar k)
  | custom k l =>
    refine ⟨by simp [htype], by simp [PropertyType.initialValue], by simp [PropertyType.initialValue],
      by simp [PropertyType.initialValue], by simp [PropertyType.initialValue], ?_⟩
    intro k' content heq
    cases heq
    exact ⟨l, htype⟩
  | list k =>
    refine ⟨by simp [htype], ?_, by simp [PropertyType.initialValue],
      by simp [PropertyType.initialValue], by simp [PropertyType.initialValue],
      by simp [PropertyType.initialValue]⟩
    intro k' vs heq a ha
    cases heq
    cases ha
  | hash key value =>
    refine ⟨by simp [htype], by simp [PropertyType.initialValue], ?_, ?_, ?_,
      by simp [PropertyType.initialValue]⟩
    · intro es heq
      cases heq
      exact List.nodup_nil
    · intro es heq e he
      cases heq
      cases he
    · intro es heq e he
      cases heq
      cases he
  | _ =>
    exact ⟨by simp [htype], by simp [PropertyType.initialValue], by simp [PropertyType.initialValue],
      by simp [PropertyType.initialValue], by simp [PropertyType.initialValue],
      by simp [PropertyType.initialValue]⟩

/-- A field keeps the content and the property of another, or of itself, tame. -/
theorem Tame.step (h : Tame env S f all done i p) (hd : Distinguishes env S f all)
    (hp : p.Sound S t) (hf : (S.propertyOrdering t).fields[i]? = some f)
    (hpure : f.type.isPureMessage = false) {x : WireField} (hx : x ∈ all)
    (hfresh : x.fieldNumber = f.fieldNumber → ∀ key t', f.type = .hash key (.message t') →
      ∀ a, EntryKey env key x a → ¬KeyOf env f done a)
    (hdecodes : Decodes env S keep t [x] p q) : Tame env S f all (done ++ [x]) i q := by
  have hsub : ∀ y ∈ done, y ∈ done ++ [x] := fun y hy => List.mem_append_left _ hy
  have hfits := (S.propertyOrdering t).presence_fits f (List.mem_of_getElem? hf)
  cases hdecodes.effect hp hf hpure with
  | skipped hindex hcache hstored =>
    refine ⟨by rw [hstored]; exact h.stored.mono hsub, ?_⟩
    rw [hcache, hstored]
    exact fun hi => (h.cached hi).imp_left fun hgentle => hgentle.mono hsub
  | other hindex hk hi hq hstored =>
    refine ⟨(h.stored.mono hsub).displaced hstored, fun heq => ?_⟩
    rw [hq] at heq
    exact absurd (Option.some.inj heq) hk
  | written hindex hk hi hq hstored =>
    rw [h.exact hd hp hf hi, storedIn_writeProperty] at hstored
    have hgentle := (h.cached hi).1.storedValue (S := S) (hp.property hi hf).suits
    refine ⟨(hgentle.mono hsub).displaced hstored, fun heq => ?_⟩
    rw [hq] at heq
    exact absurd (Option.some.inj heq) hk
  | first hindex hi hq m hm hstored hturns =>
    have hnumber := (fieldNumber_of_indexOfFieldNumber hindex hf).symm
    have hgentle := h.stored.displaced hm
    refine ⟨by rw [hstored]; exact hgentle.mono hsub, fun _ => ?_⟩
    rw [hstored]
    refine hturns.gentle hd hx hnumber (hfresh hnumber) (fun hscalar => ?_) (fun htype => ?_)
      (fun _ _ _ => rfl)
    · rcases initializedProperty_cases (S := S) hpure m with heq | ⟨heq, -⟩
      · rw [heq]
        exact hgentle
      · rw [heq]
        exact gentle_initialValue hscalar
    · rcases initializedProperty_cases (S := S) (i := i) hpure m with heq | ⟨-, hpresence⟩
      · exact .inl heq
      · exfalso
        unfold FieldInfo.presenceFits at hfits
        rcases hpresence with hpresence | ⟨j, hpresence⟩ <;>
          rcases htype with ⟨n, htype⟩ | htype <;>
            cases hf' : f.type <;> simp_all [PropertyType.isMap]
  | next hindex hi hq hstored hturns =>
    have hnumber := (fieldNumber_of_indexOfFieldNumber hindex hf).symm
    obtain ⟨hgentle, hgrows, hentry⟩ := h.cached hi
    refine ⟨by rw [hstored]; exact h.stored.mono hsub, fun _ => ?_⟩
    rw [hstored]
    exact hturns.gentle hd hx hnumber (hfresh hnumber) (fun _ => hgentle) (fun _ => .inr hgrows)
      hentry

/-- The key of a field is none of those before it. -/
theorem Distinguishes.fresh (hd : Distinguishes env S f all) {before after : List WireField}
    {x : WireField} (hall : all = before ++ x :: after) (hnumber : x.fieldNumber = f.fieldNumber)
    (key : ScalarKind) (t' : Nat) (htype : f.type = .hash key (.message t')) (a : Scalar)
    (ha : EntryKey env key x a) : ¬KeyOf env f before a := by
  rintro ⟨y, hy, hy', key', value, htype', hkey⟩
  rw [htype] at htype'
  cases htype'
  have hpairwise := hd.keys key t' htype
  rw [hall, List.filter_append, List.filter_cons_of_pos (by simp [hnumber])] at hpairwise
  have hcross := (List.pairwise_append.mp hpairwise).2.2 y (List.mem_filter.mpr ⟨hy, by simp [hy']⟩)
    x List.mem_cons_self
  exact hcross a hkey ha

/-- What is told apart among many values is told apart among some of them. -/
theorem Distinguishes.of_sublist {xs ys : List WireField} (h : Distinguishes env S f ys)
    (hsub : xs.Sublist ys) : Distinguishes env S f xs := by
  have hcompared {a : Scalar} (ha : Compared env f xs a) : Compared env f ys a := by
    cases ha with
    | carried hx hnumber hcarries => exact .carried (hsub.subset hx) hnumber hcarries
    | initial htype hpresence => exact .initial htype hpresence
  exact ⟨fun hstores a b ha hb => h.values hstores a b (hcompared ha) (hcompared hb),
    fun key t' htype => (h.keys key t' htype).sublist (hsub.filter _), h.handler⟩

/-- So does a sequence of fields. -/
theorem Tame.run {before xs after : List WireField} (h : Tame env S f all before i p)
    (hd : Distinguishes env S f all) (hall : all = before ++ (xs ++ after)) (hp : p.Sound S t)
    (hf : (S.propertyOrdering t).fields[i]? = some f) (hpure : f.type.isPureMessage = false)
    (hdecodes : Decodes env S keep t xs p q) : Tame env S f all (before ++ xs) i q := by
  refine hdecodes.run (I := fun ys r => Tame env S f all (before ++ ys) i r) hp
    (by rwa [List.append_nil]) fun ys x zs r r' hsplit hr hI hx => ?_
  have hsplit' : all = before ++ ys ++ x :: (zs ++ after) := by
    rw [hall, hsplit]
    simp
  rw [← List.append_assoc]
  exact hI.step hd hr hf hpure (by rw [hsplit']; simp) (fun hnumber => hd.fresh hsplit' hnumber) hx

/-- A new message only holds zeros of a field. -/
theorem tame_start (hf : (S.propertyOrdering t).fields[i]? = some f) :
    Tame env S f all [] i (.start S t) := by
  refine ⟨?_, fun hi => by cases hi⟩
  have hnumber := ((S.propertyOrdering t).numbers_bound f (List.mem_of_getElem? hf)).1
  have hnull : Gentle env f all [] .null :=
    ⟨by simp, by simp, by simp, by simp, by simp, by simp⟩
  have hmember : (S.defaultMessage t).member (.field i) = f.storedDefault S := by
    simp [Schema.defaultMessage, Message.member, hf]
  unfold storedIn Draft.start
  cases hpresence : f.presence with
  | oneof j =>
    have hstate : (S.defaultMessage t).oneofState j = (0, .null) := rfl
    simp only [hstate, if_neg (Nat.ne_of_lt hnumber)]
    exact hnull
  | optional =>
    simp only [hmember, FieldInfo.storedDefault, hpresence]
    exact hnull
  | implicit | required | mapEntry =>
    simp only [hmember]
    by_cases hscalar : ∃ k, f.type = .scalar k
    · obtain ⟨k, htype⟩ := hscalar
      rw [show f.storedDefault S = .scalar ⟨k, k.zero⟩ by
        simp [FieldInfo.storedDefault, hpresence, htype, PropertyType.initialValue]]
      refine ⟨fun hstores _ s hs => ?_, by simp, by simp, by simp, by simp, by simp⟩
      cases hs
      first
      | exact .initial htype hpresence
      | exact absurd ⟨⟨k, htype⟩, by simp [hpresence]⟩ hstores
    · have hinitial := @gentle_initialValue env S f all [] fun k htype => hscalar ⟨k, htype⟩
      unfold FieldInfo.storedDefault
      cases htype : f.type <;> rw [htype] at hinitial <;> simp only [hpresence] <;>
        first
        | exact hinitial
        | exact ⟨by simp, by simp, by simp, by simp, by simp, by simp⟩

/-- A message is never taken for equal to the old one. -/
theorem setMessageProperty_message {t' : Nat} (htype : f.type = .message t') (m : Message) {v : Value}
    (hv : v.Suits f.type) : S.setMessageProperty m i f v = (writeProperty S m i f v, true) := by
  rw [htype] at hv
  obtain ⟨sub, rfl⟩ := hv
  have hconvert : S.convert f.type (.message t' sub) = some (.message t' sub) := by
    simp [Schema.convert, htype]
  have hequal (old : Value) : S.isEqual old (.message t' sub) = false := by
    cases old <;> rfl
  unfold Schema.setMessageProperty writeProperty storedContent FieldInfo.memberAt storedValue
  rw [hconvert]
  cases hpresence : f.presence with
  | oneof j => simp [hequal]
  | optional | mapEntry => simp [hequal]
  | implicit | required => simp [htype, Schema.assigned]

/-- The setters store what they are given along a sequence of fields whose values they tell
apart. -/
theorem exactAlong_of_tame {A : Nat → Prop} {xs : List WireField} (hp : p.Sound S t)
    (htame : ∀ i f, A i → (S.propertyOrdering t).fields[i]? = some f →
      Distinguishes env S f all ∧ (f.type.isPureMessage = false → Tame env S f all done i p))
    (hall : all = done ++ xs) : ExactAlong env S keep t A xs p := by
  rintro ys zs r rfl hdecodes
  have hsound := hdecodes.sound hp
  have hboth (k : Nat) (g : FieldInfo) (hk : r.cache.index = some k) (hA : A k)
      (hg : (S.propertyOrdering t).fields[k]? = some g) :
      S.setMessageProperty r.message k g r.cache.propertyValue =
        (writeProperty S r.message k g r.cache.propertyValue, true) ∧
      ∀ key value, g.type = .hash key value →
        S.addNext key value r.cache.mapEntry = S.addNext key value none := by
    obtain ⟨hd, htame⟩ := htame k g hA hg
    cases hpure : g.type.isPureMessage with
    | true =>
      cases htype : g.type with
      | message t' =>
        exact ⟨setMessageProperty_message htype _ (hsound.property hk hg).suits, by simp⟩
      | _ => simp [htype, PropertyType.isPureMessage] at hpure
    | false =>
      have hr := (htame hpure).run hd hall hp hg hpure hdecodes
      exact ⟨hr.exact hd hsound hg hk, (hr.cached hk).2.2⟩
  exact ⟨fun k g hk hA hg _ => (hboth k g hk hA hg).1,
    fun k g _ hk hA hg _ _ => (hboth k g hk hA hg).2⟩

/-- So they do from the begin of an input. -/
theorem exactAlong_of_distinguishes {A : Nat → Prop} {before xs : List WireField}
    (hd : ∀ i f, A i → (S.propertyOrdering t).fields[i]? = some f →
      Distinguishes env S f (before ++ xs))
    (hdecodes : Decodes env S keep t before (.start S t) p) :
    ExactAlong env S keep t A xs p := by
  have hstart := Draft.sound_start S t
  refine @exactAlong_of_tame _ _ (before ++ xs) before _ _ p A xs (hdecodes.sound hstart)
    (fun i f hi hf => ⟨hd i f hi hf, fun hpure => ?_⟩) rfl
  have hrun : Tame env S f (before ++ xs) ([] ++ before) i p :=
    (tame_start hf).run (hd i f hi hf) rfl hstart hf hpure hdecodes
  exact hrun

end

end QtGrpc.Protobuf.Binary
