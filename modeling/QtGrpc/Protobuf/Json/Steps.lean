import QtGrpc.Protobuf.DeserializerSteps
import QtGrpc.Protobuf.Json.Deserializer
import Mathlib.Algebra.Order.BigOperators.Group.List
import Mathlib.Algebra.Order.Group.Nat

/-!
# What one step of the JSON decoder does to its stack

A step of `nextFieldIndex` looks at the top of the stack only. It leaves less to decode there:
the index goes on, or the object gets smaller. What it pushes is smaller than the object it was
taken from. Whatever a decoder leaves on the stack above the states it started with is bounded by
that size, so the decoding of every document ends, and never without a state to look at.
-/

namespace QtGrpc.Protobuf.Json

/-- There is less to decode in a state, after the field with this index. -/
def LessLeft (before after : JsonState) (i : Nat) : Prop :=
  after.obj.size < before.obj.size ∨
    after.obj = before.obj ∧ before.index ≤ i ∧ after.index = i + 1

/-- A value that a message or map field cannot be read from. -/
def WrongShape (f : FieldInfo) (value : JsonValue) : Prop :=
  if f.fieldFlags.isMessage && f.fieldFlags.repeated then
    ∀ items, value = .array items → items.head? = some .null
  else if f.fieldFlags.isMap then ∀ members, value ≠ .object members
  else f.fieldFlags.isMessage ∧ ∃ items, value = .array items

/-- An array with an item that is not null is the value of a list of messages. -/
theorem not_wrongShape_array {f : FieldInfo} {nextValue : JsonValue} {array : List JsonValue}
    (hrepeated : (f.fieldFlags.isMessage && f.fieldFlags.repeated) = true)
    (hnull : nextValue.isNull = false) : ¬ WrongShape f (.array (nextValue :: array)) := by
  intro h
  rw [WrongShape, if_pos hrepeated] at h
  obtain rfl : nextValue = .null := by simpa using h _ rfl
  cases hnull

/-- An object is the value of a map or of a message. -/
theorem not_wrongShape_object {f : FieldInfo} {members : JsonObject}
    (hrepeated : (f.fieldFlags.isMessage && f.fieldFlags.repeated) ≠ true) :
    ¬ WrongShape f (.object members) := by
  intro h
  rw [WrongShape, if_neg hrepeated] at h
  split at h
  · exact h members rfl
  · obtain ⟨-, items, hitems⟩ := h
    cases hitems

/-- What the loop of `nextFieldIndex` over the fields from the index of the state on can find. -/
inductive FoundStep (fields : List FieldInfo) (state : JsonState) : Found → Prop where
  | ended : FoundStep fields state .ended
  | wrongShape (top : JsonState) (f : FieldInfo) (value : JsonValue) (hobj : top.obj = state.obj)
      (hshape : WrongShape f value) : FoundStep fields state (.wrongShape top f value)
  | scalar (top : JsonState) (i : Nat) (f : FieldInfo) (val : JsonValue)
      (hf : fields[i - state.index]? = some f) (hi : state.index ≤ i) (value : JsonValue)
      (hvalue : top.scalarValue = some value) (hshape : ¬ WrongShape f val)
      (hleft : LessLeft state top i) :
      FoundStep fields state (.scalar top i f val)
  | object (pushed : JsonObject) (top : JsonState) (i : Nat) (f : FieldInfo) (val : JsonValue)
      (hf : fields[i - state.index]? = some f) (hi : state.index ≤ i)
      (hmessage : f.type.isMessage) (hshape : ¬ WrongShape f val) (hleft : LessLeft state top i)
      (hsize : pushed.size < state.obj.size) :
      FoundStep fields state (.object pushed top i f val)

variable (env : JsonEnvironment)

/-- A key that is found is one of the object. -/
theorem findKey_mem {o : JsonObject} {jsonName key : String}
    (h : findKey env o jsonName = some key) : key ∈ o.keys :=
  List.mem_of_find?_eq_some h

/-- Fields with these flags are of message type, as the generator declares it. -/
theorem isMessage_of_flags {f : FieldInfo} (h : f.fieldFlags.isMessage ∨ f.fieldFlags.isMap) :
    f.type.isMessage := by
  obtain ⟨_, _, type, presence, _⟩ := f
  cases presence <;> cases type <;>
    simp_all [FieldInfo.fieldFlags, FieldInfo.collectFieldFlags, FieldInfo.getFlagForType,
      PropertyType.isMessage, PropertyType.isMap, PropertyType.isPureMessage]

/-- A field that is passed by may be put in front. -/
theorem FoundStep.skip {fields : List FieldInfo} {f : FieldInfo} {state : JsonState}
    {v : Option JsonValue} {found : Found}
    (h : FoundStep fields { state.next with scalarValue := v } found) :
    FoundStep (f :: fields) state found := by
  have hindex : ∀ i, state.index + 1 ≤ i →
      (f :: fields)[i - state.index]? = fields[i - (state.index + 1)]? := fun i hi => by
    rw [show i - state.index = i - (state.index + 1) + 1 by omega, List.getElem?_cons_succ]
  have hleft : ∀ {top i}, LessLeft { state.next with scalarValue := v } top i →
      LessLeft state top i := fun h =>
    h.imp id fun ⟨hobj, hi, htop⟩ => ⟨hobj, Nat.le_of_succ_le hi, htop⟩
  cases h with
  | ended => exact .ended
  | wrongShape top g value hobj hshape => exact .wrongShape top g value hobj hshape
  | scalar top i g val hf hi value hvalue hshape h =>
    exact .scalar top i g val ((hindex i hi).trans hf) (Nat.le_of_succ_le hi) value hvalue hshape
      (hleft h)
  | object pushed top i g val hf hi hmessage hshape h hsize =>
    exact .object pushed top i g val ((hindex i hi).trans hf) (Nat.le_of_succ_le hi) hmessage hshape
      (hleft h) hsize

/-- What becomes of the value of a message field. -/
theorem foundMessage_step (fields : List FieldInfo) (f : FieldInfo) (state : JsonState)
    (val : JsonValue) (hf : f.type.isMessage) (hval : val.size < state.obj.size)
    (hshape : WrongShape f val ↔ ∃ items, val = .array items) :
    FoundStep (f :: fields) state (foundMessage f state val) := by
  have hleft : ∀ v, LessLeft state { state.next with scalarValue := v } state.index := fun _ =>
    .inr ⟨rfl, Nat.le_refl _, rfl⟩
  cases val with
  | array items => exact .wrongShape state f _ rfl (hshape.mpr ⟨items, rfl⟩)
  | object o =>
    refine .object o state.next _ f _ (by simp) (Nat.le_refl _) hf (by simp [hshape]) (hleft _) ?_
    simp only [JsonValue.size] at hval
    omega
  | null | bool | integer | double | string =>
    exact .scalar _ _ f _ (by simp) (Nat.le_refl _) _ rfl (by simp [hshape]) (hleft _)

/-- What becomes of the first item of a list of messages. -/
theorem foundItem_step (fields : List FieldInfo) (f : FieldInfo) (state : JsonState) (key : String)
    (nextValue : JsonValue) (array : List JsonValue) (hf : f.type.isMessage)
    (hshape : ¬ WrongShape f (.array (nextValue :: array))) (hkey : key ∈ state.obj.keys)
    (hval : state.obj.value key = .array (nextValue :: array)) :
    FoundStep (f :: fields) state (foundItem f state key nextValue array) := by
  have hvalue := JsonObject.size_value_lt state.obj key hkey
  have hpos : 0 < nextValue.size := by cases nextValue <;> simp only [JsonValue.size] <;> omega
  have hleft : (state.obj.insert key (.array array)).size < state.obj.size := by
    refine JsonObject.size_insert_lt _ _ _ hkey ?_
    simp only [hval, JsonValue.size, JsonValue.sizeItems]
    omega
  cases nextValue with
  | object o =>
    refine .object o _ _ f _ (by simp) (Nat.le_refl _) hf hshape (.inl hleft) ?_
    simp only [hval, JsonValue.size, JsonValue.sizeItems] at hvalue
    omega
  | null | bool | integer | double | string | array =>
    exact .scalar _ _ f _ (by simp) (Nat.le_refl _) _ rfl hshape (.inl hleft)

/-- What becomes of the first entry of a map. -/
theorem foundEntry_step (fields : List FieldInfo) (f : FieldInfo) (state : JsonState)
    (mapKey key : String) (value : JsonValue) (mapObject : JsonObject) (hf : f.type.isMessage)
    (hshape : ¬ WrongShape f (.object ((key, value) :: mapObject)))
    (hkey : mapKey ∈ state.obj.keys)
    (hval : state.obj.value mapKey = .object ((key, value) :: mapObject)) :
    FoundStep (f :: fields) state (foundEntry f state mapKey key value mapObject) := by
  have hvalue := JsonObject.size_value_lt state.obj mapKey hkey
  refine .object _ _ _ f _ (by simp) (Nat.le_refl _) hf hshape (.inl ?_) ?_
  · refine JsonObject.size_insert_lt _ _ _ hkey ?_
    simp only [hval, JsonValue.size, JsonObject.size]
    omega
  · simp only [hval, JsonValue.size, JsonObject.size] at hvalue ⊢
    omega

/-- The loop of `nextFieldIndex` finds one of the things listed. -/
theorem findField_step (fields : List FieldInfo) (state : JsonState) :
    FoundStep fields state (findField env fields state) := by
  induction fields generalizing state with
  | nil => exact .ended
  | cons f fields ih =>
    unfold findField
    cases hfind : findKey env state.obj f.jsonName with
    | none => exact (ih state.next).skip
    | some key =>
      have hkey := findKey_mem env hfind
      have hsize := JsonObject.size_value_lt state.obj key hkey
      simp only
      split
      · exact (ih state.next).skip
      · rename_i val hnull
        split
        · rename_i hrepeated
          have hf := isMessage_of_flags (f := f) (.inl (by simp_all))
          split
          · exact (ih _).skip
          · rename_i nextValue array hval
            split
            · rename_i hnext
              refine .wrongShape state f _ rfl ?_
              cases nextValue <;> simp_all [WrongShape, JsonValue.isNull]
            · rename_i hnext
              exact foundItem_step fields f state key nextValue array hf
                (not_wrongShape_array hrepeated (Bool.eq_false_of_not_eq_true hnext)) hkey hval
          · rename_i hnil hcons
            refine .wrongShape state f _ rfl ?_
            rw [WrongShape, if_pos hrepeated]
            rintro (_ | ⟨item, items⟩) hitems
            · exact absurd hitems hnil
            · exact absurd hitems (hcons item items)
        · rename_i hrepeated
          split
          · rename_i hmap
            have hf := isMessage_of_flags (f := f) (.inr hmap)
            split
            · exact (ih state.next).skip
            · rename_i k v mapObject hval
              exact foundEntry_step fields f state key k v mapObject hf
                (not_wrongShape_object hrepeated) hkey hval
            · rename_i hnil hcons
              refine .wrongShape state f _ rfl ?_
              rw [WrongShape, if_neg hrepeated, if_pos hmap]
              rintro (_ | ⟨⟨k, v⟩, members⟩) hmembers
              · exact hnil hmembers
              · exact hcons k v members hmembers
          · rename_i hmap
            split
            · rename_i hmessage
              refine foundMessage_step fields f state _ (isMessage_of_flags (.inl hmessage)) hsize ?_
              rw [WrongShape, if_neg hrepeated, if_neg hmap]
              exact and_iff_right hmessage
            · rename_i hmessage
              refine .scalar _ _ f _ (by simp) (Nat.le_refl _) _ rfl ?_ (.inr ⟨rfl, Nat.le_refl _, rfl⟩)
              rw [WrongShape, if_neg hrepeated, if_neg hmap]
              exact fun h => hmessage h.1

/-- No field of the message is left in the object on top of the stack. -/
def Ended (S : Schema) (t : MessageType) (top : JsonState) : Prop :=
  findField env ((S.propertyOrdering t).fields.drop top.index)
    { top with scalarValue := some .null } = .ended

/-- What `nextFieldIndex` can do. -/
inductive NextStep (S : Schema) (t : MessageType) (s : Deserializer) :
    Deserializer → NextField → Prop where
  | noFields (hfields : (S.propertyOrdering t).fields = []) :
      NextStep S t s (s.met .asked) .finished
  | noState (hstate : s.state = []) : NextStep S t s (s.met .asked) .finished
  | popped (top : JsonState) (rest : List JsonState) (hstate : s.state = top :: rest)
      (hfields : (S.propertyOrdering t).fields ≠ []) (hended : Ended env S t top) :
      NextStep S t s { s.met .asked with state := rest } .finished
  | wrongShape (top top' : JsonState) (rest : List JsonState) (f : FieldInfo) (value : JsonValue)
      (hstate : s.state = top :: rest) (hobj : top'.obj = top.obj) (hshape : WrongShape f value) :
      NextStep S t s
        (({ s.met .asked with state := top' :: rest }.met (.found f value)).setInvalidFormatError)
        .finished
  | scalar (top top' : JsonState) (rest : List JsonState) (i : Nat) (f : FieldInfo)
      (val value : JsonValue) (hstate : s.state = top :: rest)
      (hf : (S.propertyOrdering t).fields[i]? = some f) (hvalue : top'.scalarValue = some value)
      (hshape : ¬ WrongShape f val) (hleft : LessLeft top top' i) :
      NextStep S t s ({ s.met .asked with state := top' :: rest }.met (.found f val)) (.field i)
  | object (pushed : JsonObject) (top top' : JsonState) (rest : List JsonState) (i : Nat)
      (f : FieldInfo) (val : JsonValue) (hstate : s.state = top :: rest)
      (hf : (S.propertyOrdering t).fields[i]? = some f) (hmessage : f.type.isMessage)
      (hshape : ¬ WrongShape f val) (hleft : LessLeft top top' i)
      (hsize : pushed.size < top.obj.size) :
      NextStep S t s
        ({ s.met .asked with state := { obj := pushed } :: top' :: rest }.met (.found f val)) (.field i)

/-- `nextFieldIndex` needs no fuel. -/
theorem NextStep.ne_outOfFuel {S : Schema} {t : MessageType} {s s' : Deserializer}
    {next : NextField} (h : NextStep env S t s s' next) : next ≠ .outOfFuel := by
  cases h <;> simp

/-- `nextFieldIndex` does one of the things listed. -/
theorem nextFieldIndex_step (S : Schema) (t : MessageType) (s : Deserializer) :
    NextStep env S t s (nextFieldIndex env S t s).1 (nextFieldIndex env S t s).2 := by
  unfold nextFieldIndex
  simp only
  split
  · exact .noFields (List.length_eq_zero_iff.mp ‹_›)
  · rename_i hfields
    cases hstate : s.state with
    | nil =>
      simpa only [Deserializer.met, hstate] using NextStep.noState (S := S) (t := t) hstate
    | cons top rest =>
      have hstep := findField_step env ((S.propertyOrdering t).fields.drop top.index)
        { top with scalarValue := some .null }
      simp only [Deserializer.met, hstate]
      generalize hfound : findField env ((S.propertyOrdering t).fields.drop top.index)
        { top with scalarValue := some .null } = found at hstep
      have hindex : ∀ {i f}, top.index ≤ i →
          ((S.propertyOrdering t).fields.drop top.index)[i - top.index]? = some f →
          (S.propertyOrdering t).fields[i]? = some f := fun hi hf => by
        rwa [List.getElem?_drop, Nat.add_sub_cancel' hi] at hf
      cases hstep with
      | ended =>
        exact .popped top rest hstate (fun h => hfields (by rw [h]; rfl)) hfound
      | wrongShape top' f value hobj hshape =>
        exact .wrongShape top top' rest f value hstate hobj hshape
      | scalar top' i f val hf hi value hvalue hshape hleft =>
        exact .scalar top top' rest i f val value hstate (hindex hi hf) hvalue hshape hleft
      | object pushed top' i f val hf hi hmessage hshape hleft hsize =>
        exact .object pushed top top' rest i f val hstate (hindex hi hf) hmessage hshape hleft hsize

/-- The record is not on the stack. -/
@[simp] theorem state_met (s : Deserializer) (e : Event) : (s.met e).state = s.state := rfl

/-- Nor is the error. -/
@[simp] theorem state_setError (s : Deserializer) (error : SerializerError) (text : String) :
    (s.setError error text).state = s.state := rfl

/-- Nor is the one for an invalid format. -/
@[simp] theorem state_setInvalidFormatError (s : Deserializer) :
    s.setInvalidFormatError.state = s.state := rfl

/-- Reading a scalar field leaves the stack alone. -/
theorem state_deserializeScalarField (f : FieldInfo) (s : Deserializer) (v : Value) :
    (deserializeScalarField env f s v).1.state = s.state := by
  have hread : ∀ result, (readScalar f s result).1.state = s.state := fun (value, ok) => by
    cases ok <;> rfl
  unfold deserializeScalarField
  split <;> first | exact hread _ | rfl

/-- Only a scalar type or a list of one has a handler. -/
theorem deserializeScalarField_of_isMessage (f : FieldInfo) (s : Deserializer) (v : Value)
    (hf : f.type.isMessage) : deserializeScalarField env f s v = (s, v, false) := by
  unfold deserializeScalarField
  split <;> simp_all [PropertyType.isMessage]

/-- So does a custom deserializer. -/
theorem state_interceptMessageField {custom : CustomDeserializers} {t : MessageType}
    {s s' : Deserializer} {m m' : Message} {ok : Bool}
    (h : interceptMessageField custom t s m = some (s', m', ok)) : s'.state = s.state := by
  obtain ⟨value, -, hresult⟩ := Option.map_eq_some_iff.mp h
  split at hresult
  · obtain ⟨rfl, -, -⟩ := hresult
    rfl
  · obtain ⟨rfl, -, -⟩ := hresult
    rfl

variable (custom : CustomDeserializers) (S : Schema)

/-- A value that is no object is not left to the base class. -/
theorem interceptMessageField_isSome {t : MessageType} {s : Deserializer} {m : Message}
    (h : s.scalarValue?.isSome) : (interceptMessageField custom t s m).isSome := by
  simpa [interceptMessageField] using h

/-- The states above the ones given, each with an object of at most this size. -/
def Above (n : Nat) (rest stack : List JsonState) : Prop :=
  ∃ above, stack = above ++ rest ∧ ∀ x ∈ above, x.obj.size ≤ n

/-- What is behind the loop leaves the stack alone. -/
theorem finishStep_state {t : MessageType} {s s' : Deserializer} {ok : Bool}
    (h : FinishStep (format env custom S) S t s s' ok) : s'.state = s.state := by
  cases h with
  | notStored => rfl
  | checked seen => rfl

/-- The stack changes with a nested message only. -/
theorem fieldStep_state_or {nested : MessageType → Deserializer → Message →
      Deserializer × Message × Outcome}
    {s s' : Deserializer} {f : FieldInfo} {stop : Option Outcome}
    (hstep : FieldStep (format env custom S) S nested f s s' stop) :
    s'.state = s.state ∨ ∃ t m s₁, s₁.state = s.state ∧ s' = (nested t s₁ m).1 := by
  cases hstep with
  | message t m => exact .inr ⟨t, m, s, rfl, rfl⟩
  | enum v | enumFailed v => exact .inl rfl
  | scalar v | noHandler v => exact .inl (state_deserializeScalarField env f s v)
  | handler v handler => exact .inr ⟨_, _, _, state_deserializeScalarField env f s v, rfl⟩

/-- Where less is left, the object is not larger. -/
theorem LessLeft.size_le {top top' : JsonState} {i : Nat} (h : LessLeft top top' i) :
    top'.obj.size ≤ top.obj.size := by
  rcases h with h | ⟨h, -⟩
  · exact Nat.le_of_lt h
  · exact Nat.le_of_eq (by rw [h])

/-- A state lies above the others. -/
theorem Above.refl {top : JsonState} {rest stack : List JsonState} (h : stack = top :: rest) :
    Above top.obj.size rest stack :=
  ⟨[top], h, by simp⟩

/-- What lies above a part of the states lies above all of them. -/
theorem Above.append {n k : Nat} {above rest stack : List JsonState} (h : Above k (above ++ rest) stack)
    (hk : k ≤ n) (habove : ∀ x ∈ above, x.obj.size ≤ n) : Above n rest stack := by
  obtain ⟨more, rfl, hmore⟩ := h
  refine ⟨more ++ above, by simp, fun x hx => ?_⟩
  rcases List.mem_append.mp hx with hx | hx
  · exact Nat.le_trans (hmore x hx) hk
  · exact habove x hx

/-- A field that was found leaves less to decode in the state on top than there was, and what lies
above the states it leaves lies above those it found. -/
theorem fieldStep_state {nested : MessageType → Deserializer → Message →
      Deserializer × Message × Outcome}
    (hnested : ∀ t s m top rest, s.state = top :: rest →
      Above top.obj.size rest (nested t s m).1.state)
    (hdefined : ∀ t s m, s.scalarValue?.isSome → (nested t s m).1.state = s.state)
    {t : MessageType} {s s' s'' : Deserializer} {i : Nat} {f : FieldInfo} {stop : Option Outcome}
    {top : JsonState} {rest : List JsonState} (hstate : s.state = top :: rest)
    (hnext : NextStep env S t s s' (.field i))
    (hstep : FieldStep (format env custom S) S nested f s' s'' stop) :
    ∃ top' rest', s''.state = top' :: rest' ∧ LessLeft top top' i ∧
      ∀ stack, Above top'.obj.size rest' stack → Above top.obj.size rest stack := by
  cases hnext with
  | scalar top₀ top' rest₀ i g val value hstate₀ hg hvalue hshape hleft =>
    obtain ⟨rfl, rfl⟩ : top = top₀ ∧ rest = rest₀ := by simpa [hstate] using hstate₀
    refine ⟨top', rest, ?_, hleft, fun stack h => @Above.append _ _ [] _ _ h hleft.size_le (by simp)⟩
    rcases fieldStep_state_or env custom S hstep with h | ⟨t, m, s₁, hs₁, rfl⟩
    · exact h
    · rw [hdefined t s₁ m (by simp [Deserializer.scalarValue?, hs₁, hvalue])]
      exact hs₁
  | object pushed top₀ top' rest₀ i g val hstate₀ hg hmessage hshape hleft hsize =>
    obtain ⟨rfl, rfl⟩ : top = top₀ ∧ rest = rest₀ := by simpa [hstate] using hstate₀
    have hpushed := Nat.le_of_lt hsize
    rcases fieldStep_state_or env custom S hstep with h | ⟨t, m, s₁, hs₁, rfl⟩
    · exact ⟨_, _, h, .inl hsize, fun stack h =>
        @Above.append _ _ [top'] _ _ h hpushed (by simpa using hleft.size_le)⟩
    · obtain ⟨above, habove, hbound⟩ := hnested t s₁ m _ _ hs₁
      cases above with
      | nil =>
        exact ⟨top', rest, habove, hleft, fun stack h => @Above.append _ _ [] _ _ h hleft.size_le (by simp)⟩
      | cons top'' above =>
        have htop'' : top''.obj.size < top.obj.size :=
          Nat.lt_of_le_of_lt (hbound top'' (by simp)) hsize
        refine ⟨top'', above ++ top' :: rest, habove, .inl htop'', fun stack h => ?_⟩
        have h' : Above top''.obj.size ((above ++ [top']) ++ rest) stack := by simpa using h
        refine h'.append (Nat.le_of_lt htop'') fun x hx => ?_
        rcases List.mem_append.mp hx with hx | hx
        · exact Nat.le_trans (hbound x (by simp [hx])) hpushed
        · rw [List.mem_singleton.mp hx]
          exact hleft.size_le

/-- `nextFieldIndex` removes the state on top, changes it, or pushes a smaller one. -/
theorem NextStep.above {t : MessageType} {s s' : Deserializer} {next : NextField} {top : JsonState}
    {rest : List JsonState} (hstate : s.state = top :: rest) (h : NextStep env S t s s' next) :
    Above top.obj.size rest s'.state := by
  cases h with
  | noFields => exact .refl hstate
  | noState hnil => simp [hstate] at hnil
  | popped top₀ rest₀ hstate₀ =>
    obtain ⟨rfl, rfl⟩ : top = top₀ ∧ rest = rest₀ := by simpa [hstate] using hstate₀
    exact ⟨[], rfl, by simp⟩
  | wrongShape top₀ top' rest₀ f value hstate₀ hobj =>
    obtain ⟨rfl, rfl⟩ : top = top₀ ∧ rest = rest₀ := by simpa [hstate] using hstate₀
    exact ⟨[top'], rfl, by simp [hobj]⟩
  | scalar top₀ top' rest₀ i f val value hstate₀ hf hvalue hshape hleft =>
    obtain ⟨rfl, rfl⟩ : top = top₀ ∧ rest = rest₀ := by simpa [hstate] using hstate₀
    exact ⟨[top'], rfl, by simpa using hleft.size_le⟩
  | object pushed top₀ top' rest₀ i f val hstate₀ hf hmessage hshape hleft hsize =>
    obtain ⟨rfl, rfl⟩ : top = top₀ ∧ rest = rest₀ := by simpa [hstate] using hstate₀
    exact ⟨[{ obj := pushed }, top'], rfl, by simpa using ⟨Nat.le_of_lt hsize, hleft.size_le⟩⟩

/-- A nested message with a value that is no object leaves the stack alone. -/
theorem deserializeMessageField_defined (fuel : Nat) (t : MessageType) (s : Deserializer)
    (m : Message) (h : s.scalarValue?.isSome) :
    (deserializeMessageField (format env custom S) S fuel t s m).1.state = s.state := by
  obtain ⟨⟨s', m', ok⟩, hs'⟩ := Option.isSome_iff_exists.mp
    (interceptMessageField_isSome custom (t := t) (m := m) h)
  have hs'' : (format env custom S).interceptMessageField t s m = some (s', m', ok) := hs'
  simpa [deserializeMessageField, hs''] using state_interceptMessageField hs'

/-- A nested message takes no state from below the one on top. -/
theorem deserializeMessageField_above {fuel : Nat}
    (hloop : ∀ t seen cache s m top rest, s.state = top :: rest → Above top.obj.size rest
      (deserializeLoop (format env custom S) S fuel t seen cache s m).1.state)
    (t : MessageType) (s : Deserializer) (m : Message) (top : JsonState) (rest : List JsonState)
    (hstate : s.state = top :: rest) : Above top.obj.size rest
      (deserializeMessageField (format env custom S) S fuel t s m).1.state := by
  unfold deserializeMessageField
  split
  · rename_i hs'
    exact .refl ((state_interceptMessageField hs').trans hstate)
  · exact hloop t [] {} s m top rest hstate

/-- The loop never takes a state from below the one it was entered with. -/
theorem deserializeLoop_above (fuel : Nat) (t : MessageType) (seen : List Nat) (cache : Cache)
    (s : Deserializer) (m : Message) (top : JsonState) (rest : List JsonState)
    (hstate : s.state = top :: rest) : Above top.obj.size rest
      (deserializeLoop (format env custom S) S fuel t seen cache s m).1.state := by
  induction fuel generalizing t seen cache s m top rest with
  | zero => exact .refl hstate
  | succ fuel ih =>
    have hfield := fun {i f s' s'' stop} => @fieldStep_state env custom S
      (deserializeMessageField (format env custom S) S fuel)
      (deserializeMessageField_above env custom S ih)
      (deserializeMessageField_defined env custom S fuel) t s s' s'' i f stop top rest hstate
    have hnext := nextFieldIndex_step env S t s
    have hstep := deserializeLoop_step (format env custom S) S fuel t seen cache s m
    generalize (deserializeLoop (format env custom S) S (fuel + 1) t seen cache s m).1 = final,
      (deserializeLoop (format env custom S) S (fuel + 1) t seen cache s m).2.2 = outcome at hstep
    cases hstep with
    | outOfFuel m | noField m => exact hnext.above env S hstate
    | finished m s' ok _ hfinish =>
      rw [finishStep_state env custom S hfinish]
      exact hnext.above env S hstate
    | notStored m => exact (hnext.above env S hstate : Above _ _ (nextFieldIndex env S t s).1.state)
    | stopped m i f s' outcome hi _ hstep =>
      rw [show (nextFieldIndex env S t s).2 = .field i from hi] at hnext
      obtain ⟨top', rest', hs', -, habove⟩ := hfield hnext hstep
      exact habove _ (.refl hs')
    | continued m m' i f s' seen cache hi _ hstep =>
      rw [show (nextFieldIndex env S t s).2 = .field i from hi] at hnext
      obtain ⟨top', rest', hs', -, habove⟩ := hfield hnext hstep
      exact habove _ (ih t seen cache s' m' top' rest' hs')

/-- How many fields the loop may still find in a state, if none of them leaves another on top. -/
def JsonState.left (fields : Nat) (state : JsonState) : Nat :=
  state.obj.size * (fields + 1) + (fields - state.index)

/-- Where less is left, fewer fields may be found. -/
theorem LessLeft.left_lt {fields i : Nat} {top top' : JsonState} (h : LessLeft top top' i)
    (hi : i < fields) : top'.left fields < top.left fields := by
  unfold JsonState.left
  rcases h with h | ⟨hobj, htop, htop'⟩
  · have := Nat.mul_le_mul_right (fields + 1) (Nat.succ_le_of_lt h)
    rw [Nat.succ_mul] at this
    omega
  · rw [hobj]
    omega

/-- What the messages inside an object of this size may need. -/
def nestedBound (S : Schema) : Nat → MessageType → Nat
  | 0, _ => 0
  | n + 1, t => ((S.propertyOrdering t).fields.map fun f =>
      (messageTypeOf S f.type).elim 0 (decodingBound S n)).sum

/-- The bound for an object: its own fields, and those of the messages inside. -/
theorem decodingBound_eq (n : Nat) (t : MessageType) :
    decodingBound S n t = n * ((S.propertyOrdering t).fields.length + 1) +
      (S.propertyOrdering t).fields.length + 1 + nestedBound S n t := by
  cases n <;> simp [decodingBound, nestedBound]

/-- The bound for a message inside is part of the one for the object. -/
theorem decodingBound_le_nestedBound {n : Nat} {t t' : MessageType} {i : Nat} {f : FieldInfo}
    (hf : (S.propertyOrdering t).fields[i]? = some f) (ht' : messageTypeOf S f.type = some t') :
    decodingBound S n t' ≤ nestedBound S (n + 1) t := by
  refine List.le_sum_of_mem (List.mem_map.mpr ⟨f, List.mem_of_getElem? hf, ?_⟩)
  rw [ht', Option.elim_some]

/-- A field runs out of fuel only where a nested message does. -/
theorem fieldStep_outOfFuel {nested : MessageType → Deserializer → Message →
      Deserializer × Message × Outcome} {s s' : Deserializer} {f : FieldInfo}
    (hstep : FieldStep (format env custom S) S nested f s s' (some .outOfFuel)) :
    ∃ t m s₁, s₁.state = s.state ∧ messageTypeOf S f.type = some t ∧
      (nested t s₁ m).2.2 = .outOfFuel := by
  generalize hstop : some Outcome.outOfFuel = stop at hstep
  cases hstep with
  | message t m ht =>
    refine ⟨t, m, s, rfl, by simp [messageTypeOf, ht], ?_⟩
    split at hstop <;> simp_all
  | enum | enumFailed | noHandler => simp at hstop
  | scalar => split at hstop <;> simp at hstop
  | handler v handler hf hok hh =>
    refine ⟨handler.proxy, S.defaultMessage handler.proxy, (deserializeScalarField env f s v).1,
      state_deserializeScalarField env f s v, ?_, ?_⟩
    · have hnested : f.type.nestedType = none := by
        cases ht : f.type <;> simp_all [Schema.handlerOf, PropertyType.nestedType]
      simp [messageTypeOf, hnested, hh]
    · split at hstop
      · assumption
      · simp at hstop

/-- The loop returns if it may be entered as often as the state on top asks for. -/
theorem deserializeLoop_returns (n : Nat) (fuel : Nat) (t : MessageType) (seen : List Nat)
    (cache : Cache) (s : Deserializer) (m : Message) (top : JsonState) (rest : List JsonState)
    (hstate : s.state = top :: rest) (hn : top.obj.size ≤ n)
    (hfuel : top.left (S.propertyOrdering t).fields.length + nestedBound S n t < fuel) :
    (deserializeLoop (format env custom S) S fuel t seen cache s m).2.2 ≠ .outOfFuel := by
  induction n using Nat.strong_induction_on generalizing fuel t seen cache s m top rest with
  | _ n ihn =>
  induction fuel generalizing seen cache s m top rest with
  | zero => omega
  | succ fuel ih =>
    have hnext := nextFieldIndex_step env S t s
    have hstep := deserializeLoop_step (format env custom S) S fuel t seen cache s m
    generalize (deserializeLoop (format env custom S) S (fuel + 1) t seen cache s m).1 = final,
      (deserializeLoop (format env custom S) S (fuel + 1) t seen cache s m).2.2 = outcome at hstep
    cases hstep with
    | outOfFuel m hi => exact absurd hi hnext.ne_outOfFuel
    | finished | noField | notStored => simp
    | stopped m i f s' outcome hi hf hstep =>
      rw [show (nextFieldIndex env S t s).2 = .field i from hi] at hnext
      rintro rfl
      obtain ⟨t', m', s₁, hs₁, ht', hnested⟩ := fieldStep_outOfFuel env custom S hstep
      replace hs₁ : s₁.state = (nextFieldIndex env S t s).1.state := hs₁
      generalize hs₀ : (nextFieldIndex env S t s).1 = s₀ at hnext hs₁
      cases hnext with
      | scalar top₀ top' rest₀ i g val value hstate₀ hg hvalue hshape hleft =>
        have hdefined : s₁.scalarValue?.isSome := by simp [Deserializer.scalarValue?, hs₁, hvalue]
        obtain ⟨⟨s', m'', ok⟩, hintercept⟩ := Option.isSome_iff_exists.mp
          (interceptMessageField_isSome custom (t := t') (m := m') hdefined)
        have hintercept' : (format env custom S).interceptMessageField t' s₁ m' =
            some (s', m'', ok) := hintercept
        simp [deserializeMessageField, hintercept'] at hnested
      | object pushed top₀ top' rest₀ i g val hstate₀ hg hmessage hshape hleft hsize =>
        obtain ⟨rfl, rfl⟩ : top = top₀ ∧ rest = rest₀ := by simpa [hstate] using hstate₀
        obtain ⟨k, rfl⟩ : ∃ k, n = k + 1 := ⟨n - 1, by omega⟩
        have hbound := decodingBound_le_nestedBound S (n := k) hf ht'
        rw [decodingBound_eq] at hbound
        unfold deserializeMessageField at hnested
        split at hnested
        · simp at hnested
        · refine ihn k (by omega) fuel t' [] {} s₁ m' { obj := pushed } (top' :: rest) hs₁ (by
            simpa using Nat.le_of_lt_succ (Nat.lt_of_lt_of_le hsize hn)) ?_ hnested
          have := Nat.mul_le_mul_right ((S.propertyOrdering t').fields.length + 1)
            (Nat.le_of_lt_succ (Nat.lt_of_lt_of_le hsize hn))
          simp only [JsonState.left]
          omega
    | continued m m' i f s' seen cache hi hf hstep =>
      rw [show (nextFieldIndex env S t s).2 = .field i from hi] at hnext
      obtain ⟨top', rest', hs', hleft, -⟩ := fieldStep_state env custom S
        (deserializeMessageField_above env custom S (deserializeLoop_above env custom S fuel))
        (deserializeMessageField_defined env custom S fuel) hstate hnext hstep
      have hi := (List.getElem?_eq_some_iff.mp hf).1
      have := hleft.left_lt hi
      exact ih seen cache s' m' top' rest' hs' (Nat.le_trans hleft.size_le hn) (by omega)

end QtGrpc.Protobuf.Json
