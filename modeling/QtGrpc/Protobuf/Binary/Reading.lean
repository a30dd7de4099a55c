import QtGrpc.Protobuf.Binary.Complete

/-!
# Reading complete fields

What the decoding loop does at a complete field: how the payload of a scalar field changes the
property of the field, and how the loop goes on behind it. What the loop returns is stated for
every amount of fuel from some number on.
-/

namespace QtGrpc.Protobuf.Binary

variable (env : Environment) (S : Schema)

/-- What a field of scalar, list or enumeration type makes of the property it is read into. -/
inductive Taken (x : WireField) : PropertyType → Value → Value → Prop where
  | scalar {k : ScalarKind} (hwire : x.wireType = k.wireType) (v : Value) :
      Taken x (.scalar k) v (.scalar ⟨k, scalarOf env k x.payload⟩)
  | packed {k : ScalarKind} (hk : k.isLengthDelimited = false)
      (hwire : x.wireType = .lengthDelimited) {length : Bytes} {payloads : List Bytes}
      (hpayload : x.payload = length ++ payloads.flatten)
      (hlength : IsVarint env length (BitVec.ofNat 64 payloads.flatten.length))
      (hsize : payloads.flatten.length ≤ maxByteArraySize)
      (h : ∀ payload ∈ payloads, IsPayload env k.wireType payload) (vs : List k.Carrier) :
      Taken x (.list k) (.scalars k vs) (.scalars k (payloads.map (scalarOf env k)))
  | element {k : ScalarKind} (hwire : x.wireType = k.wireType) (vs : List k.Carrier) :
      Taken x (.list k) (.scalars k vs) (.scalars k (vs ++ [scalarOf env k x.payload]))
  | enumerator {e : Nat} (hwire : x.wireType = .varint) (v : Value) :
      Taken x (.enum e) v (.scalar ⟨.int64, scalarOf env .int64 x.payload⟩)
  | enumPacked {e : Nat} (hwire : x.wireType = .lengthDelimited) {length : Bytes}
      {payloads : List Bytes} (hpayload : x.payload = length ++ payloads.flatten)
      (hlength : IsVarint env length (BitVec.ofNat 64 payloads.flatten.length))
      (hsize : payloads.flatten.length ≤ maxByteArraySize)
      (h : ∀ payload ∈ payloads, IsPayload env .varint payload) (e' : Nat)
      (vs : List (BitVec 32)) :
      Taken x (.enumList e) (.enumerators e' vs)
        (.enumerators e (payloads.map fun p => BitVec.setWidth 32 (scalarOf env .int64 p)))
  | enumElement {e : Nat} (hwire : x.wireType = .varint) (e' : Nat) (vs : List (BitVec 32)) :
      Taken x (.enumList e) (.enumerators e' vs)
        (.enumerators e (vs ++ [BitVec.setWidth 32 (scalarOf env .int64 x.payload)]))

variable {env S}

/-- What a field is taken into is no message. -/
theorem Taken.isMessage {x : WireField} {type : PropertyType} {v v' : Value}
    (h : Taken env x type v v') : type.isMessage = false := by
  cases h <;> rfl

/-- What a field was taken into is not null. -/
theorem Taken.isNull {x : WireField} {type : PropertyType} {v v' : Value}
    (h : Taken env x type v v') : v'.isNull = false := by
  cases h <;> rfl

/-- The payload of a field behind its header. -/
theorem Deserializer.At.payload {d : Deserializer} {x : WireField} {input tail : Bytes}
    {frames : List Int} (h : d.At (x.bytes ++ input) tail frames) :
    (d.it.advance x.header.length).isValid ∧
      (d.it.advance x.header.length).rest = x.payload ++ (input ++ tail) ∧
      (d.it.advance x.header.length).advance x.payload.length = d.it.advance x.bytes.length := by
  have hleft := Iterator.bytesLeft_append h.restOf
  refine ⟨Iterator.isValid_advance_append h.valid h.restOf,
    Iterator.rest_advance_append h.valid h.restOf, ?_⟩
  rw [Iterator.advance_advance h.valid (by omega), WireField.bytes, List.length_append]

/-- The length-delimited scalars are those of that wire type. -/
theorem ScalarKind.isLengthDelimited_eq (k : ScalarKind) :
    k.isLengthDelimited = (k.wireType == .lengthDelimited) := by
  cases k <;> rfl

section

variable {d : Deserializer} {x : WireField} {input tail : Bytes} {frames : List Int}

/-- Reading a scalar field takes its value and goes past it. -/
theorem deserializeScalarField_taken (hx : x.Complete env)
    (h : d.At (x.bytes ++ input) tail frames) (t : MessageType) {f : FieldInfo} {v v' : Value}
    (htaken : Taken env x f.type v v') (hf : f.type.isEnum = false) :
    deserializeScalarField env S f
        (d.visit t (d.it.advance x.header.length) x.fieldNumber x.wireType) v =
      (d.past t x, v', true) := by
  obtain ⟨hvalid, hrest, hend⟩ := h.payload
  rw [deserializeScalarField, FieldInfo.fieldFlags_repeated]
  generalize f.type = type at htaken hf ⊢
  cases htaken with
  | scalar hwire =>
    have hread := (hwire ▸ hx.payload).deserializeBasic hvalid hrest
    rw [hend] at hread
    simp only [integratedWireType, integratedDeserializer, PropertyType.isRepeated, Bool.and_false,
      Bool.false_eq_true, if_false, Deserializer.visit, hwire, ne_eq, not_true_eq_false, hread,
      Prod.map_apply, id_eq, Option.map_some]
    rw [Deserializer.past, Deserializer.visit, hwire]
  | packed hk hwire hpayload hlength hsize hpayloads vs =>
    rw [hpayload] at hrest hend
    have hread := deserializeList_of_payloads hpayloads hlength hsize hvalid hrest
    rw [hend] at hread
    simp only [integratedWireType, integratedDeserializer, PropertyType.isRepeated, Bool.and_true,
      Deserializer.visit, hwire, bne_self_eq_false, Bool.false_eq_true, if_false, ne_eq,
      not_true_eq_false, dif_pos, hk, Bool.or_self, hread, Prod.map_apply, id_eq, Option.map_some]
    rw [Deserializer.past, Deserializer.visit, hwire]
  | element hwire vs =>
    rename_i k
    have hread := (hwire ▸ hx.payload).deserializeBasic hvalid hrest
    rw [hend] at hread
    have hfits : integratedWireType (.list k) (k.wireType != .lengthDelimited) =
        some k.wireType := by
      cases k <;> rfl
    have hnonPacked : (k.wireType != .lengthDelimited || k.isLengthDelimited) = true := by
      cases k <;> rfl
    simp only [PropertyType.isRepeated, Bool.and_true, Deserializer.visit, hwire, hfits, ne_eq,
      not_true_eq_false, if_false, integratedDeserializer, dif_pos, hnonPacked, if_true,
      deserializeNonPackedList, hread, Prod.map_apply, id_eq, Option.map_some]
    rw [Deserializer.past, Deserializer.visit, hwire]
  | enumerator hwire => cases hf
  | enumPacked hwire hpayload hlength hsize hpayloads e' vs => cases hf
  | enumElement hwire e' vs => cases hf

/-- Reading an enumerator takes its value and goes past it. -/
theorem deserializeEnum_taken (hx : x.Complete env) (h : d.At (x.bytes ++ input) tail frames)
    (t : MessageType) {f : FieldInfo} {v v' : Value} (htaken : Taken env x f.type v v')
    (hf : f.type.isEnum = true) :
    deserializeEnum env f (d.visit t (d.it.advance x.header.length) x.fieldNumber x.wireType) v =
      (d.past t x, v', true) := by
  obtain ⟨hvalid, hrest, hend⟩ := h.payload
  unfold deserializeEnum
  rw [FieldInfo.fieldFlags_repeated]
  generalize f.type = type at htaken hf ⊢
  cases htaken with
  | scalar hwire => cases hf
  | packed hk hwire hpayload hlength hsize hpayloads vs => cases hf
  | element hwire vs => cases hf
  | enumerator hwire =>
    have hread := IsPayload.deserializeBasic (k := .int64) (hwire ▸ hx.payload) hvalid hrest
    rw [hend] at hread
    simp only [PropertyType.isRepeated, Bool.false_eq_true, if_false, Deserializer.visit, hread]
    rw [Deserializer.past, Deserializer.visit]
  | enumPacked hwire hpayload hlength hsize hpayloads e' vs =>
    rw [hpayload] at hrest hend
    have hread := deserializeList_of_payloads (k := .int64) hpayloads hlength hsize hvalid hrest
    rw [hend] at hread
    simp only [PropertyType.isRepeated, if_true, Deserializer.visit, hwire, hread]
    rw [Deserializer.past, Deserializer.visit, hwire]
    exact congrArg (fun values => (_, Value.enumerators _ values, true)) List.map_map
  | enumElement hwire e' vs =>
    have hread := IsPayload.deserializeBasic (k := .int64) (hwire ▸ hx.payload) hvalid hrest
    rw [hend] at hread
    have hback : (vs.map (BitVec.signExtend 64)).map (BitVec.setWidth 32) = vs := by
      rw [List.map_map]
      conv_rhs => rw [← List.map_id vs]
      congr 1
      funext value
      exact setWidth_signExtend value
    have hvalues (value : BitVec 64) :
        (vs.map (BitVec.signExtend 64) ++ [value]).map (BitVec.setWidth 32) =
          vs ++ [value.setWidth 32] := by
      rw [List.map_append, hback, List.map_singleton]
    simp only [PropertyType.isRepeated, if_true, Deserializer.visit, hwire,
      deserializeNonPackedList, hread, Prod.map_apply, id_eq, Option.map_some]
    rw [Deserializer.past, Deserializer.visit, hwire]
    exact congrArg (fun values => (_, Value.enumerators _ values, true)) (hvalues _)

/-- One field of scalar, list or enumeration type is read into its property. -/
theorem deserializeProperty_taken (hx : x.Complete env) (h : d.At (x.bytes ++ input) tail frames)
    (t : MessageType) (i : Nat) {f : FieldInfo} {cache : Cache} {v' : Value}
    (htaken : Taken env x f.type cache.propertyValue v')
    (nested : MessageType → Deserializer → Message → Deserializer × Message × Outcome)
    (m : Message) :
    deserializeProperty (format env S) S nested i f cache
        (d.visit t (d.it.advance x.header.length) x.fieldNumber x.wireType) m =
      ⟨{ cache with propertyValue := v' }, d.past t x, m, none⟩ := by
  have hnull := htaken.isNull
  have hmessage := htaken.isMessage
  have henum := deserializeEnum_taken hx h t htaken
  have hscalar := deserializeScalarField_taken (S := S) hx h t htaken
  unfold deserializeProperty
  split
  case h_1 ht _ => simp [ht, PropertyType.isMessage] at hmessage
  case h_2 ht _ => simp [ht, PropertyType.isMessage] at hmessage
  case h_3 ht _ => simp [ht, PropertyType.isMessage] at hmessage
  case h_4 ht => simp only [format, henum (by rw [ht]; rfl)]
  case h_5 ht => simp only [format, henum (by rw [ht]; rfl)]
  case h_6 h4 h5 =>
    have hnotEnum : f.type.isEnum = false := by
      cases ht : f.type <;> simp_all [PropertyType.isEnum]
    simp only [deserializeWithHandler, format, hscalar hnotEnum, hnull, Bool.false_eq_true, if_false]

end

/-! ## What the loop returns -/

/-- More fuel does not change what `nextFieldIndex` finds. -/
theorem nextFieldIndex_mono (fuel : Nat) (t : MessageType) (d : Deserializer) (m : Message)
    (h : (nextFieldIndex env S fuel t d m).2.2 ≠ .outOfFuel) :
    nextFieldIndex env S (fuel + 1) t d m = nextFieldIndex env S fuel t d m := by
  induction fuel generalizing d m with
  | zero => exact absurd rfl h
  | succ fuel ih =>
    rw [nextFieldIndex] at h ⊢
    rw [nextFieldIndex]
    split
    · rename_i hopen
      rw [if_pos hopen] at h
      rcases hheader : decodeHeader env d.it with ⟨it, _ | ⟨n, w⟩⟩
      · simp only
      · simp only [hheader] at h ⊢
        cases hindex : (S.propertyOrdering t).indexOfFieldNumber n with
        | none =>
          simp only [hindex] at h ⊢
          rcases hskip : skipField env (d.visit t it n w) d.it with _ | ⟨d', length⟩
          · simp only
          · simp only [hskip] at h ⊢
            split
            · rfl
            · rename_i hlength
              rw [if_neg hlength] at h
              exact ih _ _ h
        | some i => rfl
    · rfl

/-- What the loop returns, with any amount of fuel above the given one. -/
def Returns (env : Environment) (S : Schema) (t : MessageType) (seen : List Nat) (cache : Cache)
    (d : Deserializer) (m : Message) (n : Nat) (result : Deserializer × Message × Bool) : Prop :=
  ∀ fuel, n < fuel → deserializeLoop (format env S) S fuel t seen cache d m =
    (result.1, result.2.1, .returned result.2.2)

/-- What is returned with some fuel is returned with more. -/
theorem Returns.mono {t : MessageType} {seen : List Nat} {cache : Cache} {d : Deserializer}
    {m : Message} {n n' : Nat} {result : Deserializer × Message × Bool}
    (h : Returns env S t seen cache d m n result) (hn : n ≤ n') :
    Returns env S t seen cache d m n' result :=
  fun fuel hfuel => h fuel (by omega)

section

variable {d : Deserializer} {x : WireField} {input tail : Bytes} {frames : List Int}
  {t : MessageType} {seen : List Nat} {cache : Cache} {m : Message} {n : Nat}
  {result : Deserializer × Message × Bool}

/-- At the end of its frame the message is finished. -/
theorem Returns.finish (h : d.At [] tail frames)
    (hfinish : finishMessage (format env S) S t seen cache { d with state := frames } m =
      (result.1, result.2.1, .returned result.2.2)) :
    Returns env S t seen cache d m 0 result := by
  intro fuel hfuel
  obtain ⟨fuel, rfl⟩ := Nat.exists_eq_add_of_lt hfuel
  rw [Nat.zero_add, deserializeLoop_succ]
  simp only [format, nextFieldIndex_end h]
  exact hfinish

/-- A field the type does not have is skipped. -/
theorem Returns.unknown (hx : x.Complete env) (h : d.At (x.bytes ++ input) tail frames)
    (hindex : (S.propertyOrdering t).indexOfFieldNumber x.fieldNumber = none)
    (hrest : Returns env S t seen cache (d.past t x) (d.keep m x) n result) :
    Returns env S t seen cache d m (n + 1) result := by
  intro fuel hfuel
  obtain ⟨fuel, rfl⟩ : ∃ k, fuel = k + 1 := ⟨fuel - 1, by omega⟩
  have hshort := hrest fuel (by omega)
  obtain ⟨fuel, rfl⟩ : ∃ k, fuel = k + 1 := ⟨fuel - 1, by omega⟩
  have hfound : (nextFieldIndex env S (fuel + 1) t (d.past t x) (d.keep m x)).2.2 ≠
      .outOfFuel := by
    intro hout
    rw [deserializeLoop_succ] at hshort
    simp only [format] at hshort
    generalize nextFieldIndex env S (fuel + 1) t (d.past t x) (d.keep m x) = next at hshort hout
    obtain ⟨d', m', found⟩ := next
    simp only at hout
    subst hout
    simp at hshort
  have hmono := nextFieldIndex_mono (fuel + 1) t (d.past t x) (d.keep m x) hfound
  rw [← hrest (fuel + 1 + 1) (by omega), deserializeLoop_succ, deserializeLoop_succ]
  simp only [format, nextFieldIndex_unknown hx h hindex, hmono]

/-- A field the type has is decoded, and the loop goes on. -/
theorem Returns.known {d₁ d₂ : Deserializer} {m₁ m₂ : Message} {cache₁ cache₂ : Cache} {i : Nat}
    {f : FieldInfo} {k : Nat}
    (hnext : ∀ fuel, nextFieldIndex env S (fuel + 1) t d m = (d₁, m, .field i))
    (hfield : (S.propertyOrdering t).fields[i]? = some f)
    (hselect : selectProperty S t i f cache m = (cache₁, m₁, true))
    (hproperty : ∀ fuel, k < fuel →
      deserializeProperty (format env S) S (deserializeMessageField (format env S) S fuel) i f
        cache₁ d₁ m₁ = ⟨cache₂, d₂, m₂, none⟩)
    (hk : k ≤ n)
    (hrest : Returns env S t (i :: seen) cache₂ d₂ m₂ n result) :
    Returns env S t seen cache d m (n + 1) result := by
  intro fuel hfuel
  obtain ⟨fuel, rfl⟩ : ∃ k, fuel = k + 1 := ⟨fuel - 1, by omega⟩
  rw [deserializeLoop_succ]
  have hfound : (format env S).nextFieldIndex (fuel + 1) t d m = (d₁, m, .field i) := hnext fuel
  simp only [hfound, hfield, hselect, hproperty fuel (by omega)]
  exact hrest fuel (by omega)

/-- A field of scalar, list or enumeration type is read into its property. -/
theorem Returns.taken (hx : x.Complete env) (h : d.At (x.bytes ++ input) tail frames) {i : Nat}
    {f : FieldInfo} (hindex : (S.propertyOrdering t).indexOfFieldNumber x.fieldNumber = some i)
    (hfield : (S.propertyOrdering t).fields[i]? = some f) {c : Cache} {v' : Value} {m₁ : Message}
    (hselect : selectProperty S t i f cache m = (c, m₁, true))
    (htaken : Taken env x f.type c.propertyValue v')
    (hrest : Returns env S t (i :: seen) { c with propertyValue := v' } (d.past t x) m₁ n result) :
    Returns env S t seen cache d m (n + 1) result := by
  have hplain : (f.fieldFlags.isMessage || f.fieldFlags.isMap) = false := by
    rw [FieldInfo.fieldFlags_isMessage ((S.propertyOrdering t).presence_fits f
      (List.mem_of_getElem? hfield)), htaken.isMessage]
  exact Returns.known (fun fuel => nextFieldIndex_known hx h hindex hfield hplain fuel m) hfield
    hselect (k := 0) (fun fuel _ => deserializeProperty_taken hx h t i htaken _ m₁) (Nat.zero_le n)
    hrest

/-- What the decoding of a nested message makes of the cache and of the message. -/
inductive Nests (S : Schema) (i : Nat) (f : FieldInfo) (m : Message) (c : Cache) :
    MessageType → Message → (Message → Cache) → (Message → Message) → Prop where
  | message {t' t'' : Nat} {sub : Message} (htype : f.type = .message t')
      (hv : c.propertyValue = .message t'' sub) :
      Nests S i f m c (.named t') sub (fun sub => { c with propertyValue := .message t' sub })
        fun sub => m.writeThrough i f (.message t' sub)
  | messageList {t' t'' : Nat} {ms : List Message} (htype : f.type = .messageList t')
      (hv : c.propertyValue = .messages t'' ms) :
      Nests S i f m c (.named t') (S.defaultMessage (.named t'))
        (fun sub => { c with propertyValue := .messages t' (ms ++ [sub]) }) fun _ => m
  | entry {key : ScalarKind} {value : MapValue} {entries : List (Scalar × Value)}
      (htype : f.type = .hash key value) (hv : c.propertyValue = .hash entries) :
      Nests S i f m c (.mapEntry key value) (S.addNext key value c.mapEntry)
        (fun entry => { c with
          propertyValue := .hash (hashEmplace entries (entryKey key entry) (S.entryValue value entry))
          mapEntry := some entry }) fun _ => m
  | custom {handler : Handler} {h : Nat} {content : List Message}
      (hhandler : S.handlerOf f.type = some handler) (hv : c.propertyValue = .custom h content) :
      Nests S i f m c handler.proxy (S.defaultMessage handler.proxy)
        (fun object => { c with propertyValue := .custom h (handler.assign true object content) })
        fun _ => m

/-- A field that nests a message is of a message type. -/
theorem Nests.isMessage {S : Schema} {i : Nat} {f : FieldInfo} {m start : Message} {c : Cache}
    {t' : MessageType} {next : Message → Cache} {message : Message → Message}
    (h : Nests S i f m c t' start next message) : f.type.isMessage = true := by
  cases h with
  | message htype => rw [htype]; rfl
  | messageList htype => rw [htype]; rfl
  | entry htype => rw [htype]; rfl
  | custom hhandler =>
    unfold Schema.handlerOf at hhandler
    split at hhandler
    · rename_i htype
      rw [htype]
      rfl
    · cases hhandler

/-- A nested message is decoded into its property. -/
theorem deserializeProperty_nests {i : Nat} {f : FieldInfo} {start sub m : Message} {c : Cache}
    {t' : MessageType} {next : Message → Cache} {message : Message → Message}
    {d₁ d₂ : Deserializer}
    {nested : MessageType → Deserializer → Message → Deserializer × Message × Outcome}
    (h : Nests S i f m c t' start next message)
    (hnested : nested t' d₁ start = (d₂, sub, .returned true)) :
    deserializeProperty (format env S) S nested i f c d₁ m =
      ⟨next sub, d₂, message sub, none⟩ := by
  unfold deserializeProperty
  cases h with
  | message htype hv => simp [htype, hv, hnested]
  | messageList htype hv => simp [htype, hv, hnested]
  | entry htype hv => simp [htype, hv, hnested]
  | custom hhandler hv =>
    have htype : ∃ h' isList, f.type = .custom h' isList := by
      unfold Schema.handlerOf at hhandler
      split at hhandler
      · exact ⟨_, _, ‹_›⟩
      · cases hhandler
    obtain ⟨h', isList, htype⟩ := htype
    have hscalar (d : Deserializer) (v : Value) := @deserializeScalarField_of_isMessage env S
      f (by rw [htype]; rfl) d v
    simp only [htype, deserializeWithHandler, format, hscalar]
    rw [← htype]
    simp [hhandler, hv, hnested]

/-- A field with a nested message is decoded, and the loop goes on behind it. -/
theorem Returns.nests (hx : x.Complete env) (h : d.At (x.bytes ++ input) tail frames) {i : Nat}
    {f : FieldInfo} (hindex : (S.propertyOrdering t).indexOfFieldNumber x.fieldNumber = some i)
    (hfield : (S.propertyOrdering t).fields[i]? = some f) {length content : Bytes}
    (hpayload : x.payload = length ++ content)
    (hlength : IsVarint env length (BitVec.ofNat 64 content.length))
    (hsize : content.length ≤ maxByteArraySize) {c : Cache} {m₁ start sub : Message}
    (hselect : selectProperty S t i f cache m = (c, m₁, true)) {t' : MessageType}
    {next : Message → Cache} {message : Message → Message}
    (hnests : Nests S i f m₁ c t' start next message) {d' : Deserializer} {k : Nat}
    (hnested : Returns env S t' [] {} (d.enter t x content) start k (d', sub, true))
    (hk : k ≤ n)
    (hrest : Returns env S t (i :: seen) (next sub) d' (message sub) n result) :
    Returns env S t seen cache d m (n + 1) result := by
  have hmessage : (f.fieldFlags.isMessage || f.fieldFlags.isMap) = true := by
    rw [FieldInfo.fieldFlags_isMessage ((S.propertyOrdering t).presence_fits f
      (List.mem_of_getElem? hfield)), hnests.isMessage]
  have hnext fuel := (nextFieldIndex_enter hx h hpayload hlength hsize hindex hfield hmessage fuel
    m).1
  exact Returns.known hnext hfield hselect
    (fun fuel hfuel => deserializeProperty_nests hnests (hnested fuel hfuel)) hk hrest

end

end QtGrpc.Protobuf.Binary
