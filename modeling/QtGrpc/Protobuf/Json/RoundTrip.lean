import QtGrpc.Protobuf.Json.Instance
import QtGrpc.Protobuf.Json.Writing

/-!
# JSON that is read again

What the serializer writes for a message it reads as a message of the same content, if its fields are
told apart by their names and every nested message has fields.
-/

namespace QtGrpc.Protobuf.Json

section

variable {env : JsonEnvironment} {customIn : CustomDeserializers} {customOut : CustomSerializers}
  {order : HashOrder} {S : Schema} {t : MessageType} {m : Message} {o : JsonObject}

/-- An empty object stands for a message that has no values. -/
theorem RestoresAll.same_defaultMessage (hunknown : m.unknownEntries = [])
    (h : RestoresAll env customIn S t m []) : m.Same S t (S.defaultMessage t) := by
  refine ⟨fun i f hf => ?_, by rw [hunknown]; rfl⟩
  have hproperty := h.properties i f hf
  generalize m.messageProperty i f = value at hproperty
  cases hproperty with
  | elided hpresence hsame =>
    rwa [(Binary.isFresh_defaultMessage hf).messageProperty hpresence]

/-- A message with a member in its object has a field. -/
theorem RestoresAll.fields_ne_nil {member : String × JsonValue}
    (h : RestoresAll env customIn S t m (member :: o)) : (S.propertyOrdering t).fields ≠ [] := by
  intro hnil
  have hlookup := h.keys member.1 (by simp [hnil])
  rw [lookup_member, if_pos rfl] at hlookup
  cases hlookup

/-- A document from which a message is read, is decoded into a message of the same content. -/
theorem Reads.deserializeObject (h : Reads env customIn S t m o) :
    ∃ s m', deserializeObject env customIn S t o (S.defaultMessage t) = (s, m', .returned true) ∧
      s.lastError = .none ∧ m.Same S t m' := by
  obtain ⟨m', hends, hsame⟩ := h _ (Binary.blank_defaultMessage S t)
  have hfuel := deserializeLoop_returns env customIn S o.size (decodingBound S o.size t) t [] {}
    { state := [{ obj := o }] } (S.defaultMessage t) { obj := o } [] rfl (Nat.le_refl _) (by
      rw [decodingBound_eq]
      simp only [JsonState.left]
      omega)
  obtain ⟨s, hresult, -, herror⟩ := hends _ [] { state := [{ obj := o }] } [] none rfl hfuel
  refine ⟨{ s with state := [] }, m', ?_, herror, hsame⟩
  simp only [Json.deserializeObject, deserializeMessage, hresult]

end

/-- What the serializer writes for a message it decodes without an error into a message of the same
content. -/
def RoundTrips (env : JsonEnvironment) (customIn : CustomDeserializers)
    (customOut : CustomSerializers) (order : HashOrder) (S : Schema) (d : SerializerPrivate)
    (t : MessageType) (m : Message) : Prop :=
  ∀ fuel d' data, d.serializeMessage env customOut order S fuel t m = (d', some data) →
    ∃ d'' m', d'.deserializeMessage env customIn S t data = (d'', m', .returned true) ∧
      d''.deserializer.lastError = .none ∧ m.Same S t m'

/-- The parser reads the document that is printed for this message. -/
def PrintsBack (env : JsonEnvironment) (customOut : CustomSerializers) (order : HashOrder)
    (S : Schema) (t : MessageType) (m : Message) : Prop :=
  ∀ fuel x y, x.state = {} →
    serializeMessage (serializerFormat env S customOut) S order fuel t m x = some y →
    env.fromJson (env.toJson y.state.result) = some (.object y.state.result)

/-- The JSON serializer finds every message again whose fields and values JSON tells apart. -/
theorem written_roundTrips (env : JsonEnvironment) (henv : ConvertsBack env)
    (customIn : CustomDeserializers) (customOut : CustomSerializers) (order : HashOrder) (S : Schema)
    (hS : Regular env S) (d : SerializerPrivate) (t : Nat) (m : Message)
    (hm : FullyExpressible customIn customOut S (.named t) m)
    (hprints : PrintsBack env customOut order S (.named t) m) :
    RoundTrips env customIn customOut order S d (.named t) m := by
  intro fuel d' data h
  unfold SerializerPrivate.serializeMessage at h
  simp only at h
  split at h
  · cases h
  · rename_i y hy
    obtain ⟨rfl, hdata⟩ := Prod.mk.inj h
    obtain rfl := Option.some.inj hdata
    obtain ⟨hrestores, -⟩ := writesNested henv hS order fuel _ m _ y (hS.nested t) hm rfl hy
    have hhere := hm _ m (.self _ m)
    have hdocument := hprints fuel _ y rfl hy
    have hdecoded : ∃ s m', deserialize env customIn S (.named t) (env.toJson y.state.result)
        (S.defaultMessage (.named t)) = (s, m', .returned true) ∧ s.lastError = .none ∧
          m.Same S (.named t) m' := by
      unfold deserialize
      rw [hdocument]
      generalize y.state.result = o at hrestores
      cases o with
      | nil => exact ⟨_, _, rfl, rfl, hrestores.same_defaultMessage hhere.unknown⟩
      | cons member o =>
        have hreads := hrestores.reads (hS.tellsApart _) (fun f hf => hS.not_custom hf)
          hrestores.fields_ne_nil hhere.unknown
        exact hreads.deserializeObject
    obtain ⟨s, m', hresult, herror, hsame⟩ := hdecoded
    obtain ⟨hback, herror', -⟩ := @SerializerPrivate.deserializeMessage_eq env customIn S
      { d.clearError with serializer := { y with state := {} } } (.named t) (env.toJson y.state.result)
    rw [hresult] at hback herror'
    exact ⟨_, m', Prod.ext rfl hback, herror'.trans herror, hsame⟩

/-! ## An example -/

/-- A program that knows one document. Its floating-point numbers stand for themselves. -/
def exampleEnvironment (data : Bytes) (document : JsonObject) : JsonEnvironment :=
  { JsonEnvironment.ofDocument data document with
    lowerByteArray := fun
      | .string text => String.ofList (text.toList.map Char.toLower)
      | _ => ""
    ofFloat := fun v => .double (v.setWidth 64)
    ofDouble := .double
    toFloat := fun
      | .double v => (v.setWidth 32, true)
      | _ => (0, false)
    toDouble := fun
      | .double v => (v, true)
      | _ => (0, false) }

/-- The decimal digits of a number are read as the number. -/
theorem readDigits_toDigits (n : Nat) : readDigits (Nat.toDigits 10 n) = some n := by
  have hdigits : (Nat.toDigits 10 n).all Char.isDigit = true :=
    List.all_eq_true.mpr fun c hc => Nat.isDigit_of_mem_toDigits (by decide) (by decide) hc
  rw [readDigits, if_pos ⟨Nat.toDigits_ne_nil, hdigits⟩, Nat.ofDigitChars_ten_toDigits]

/-- So is its text. -/
theorem readDigits_toString (n : Nat) : readDigits (toString n).toList = some n := by
  rw [Nat.toString_eq_repr, Nat.toList_repr, readDigits_toDigits]

/-- An integer is read from its digits, with the sign in front of them. -/
theorem readInteger_toString (n : Int) : readInteger (toString n) = some n := by
  cases n with
  | ofNat n =>
    have htext : (toString (Int.ofNat n)).toList = Nat.toDigits 10 n := Nat.toList_repr
    have hread := readDigits_toDigits n
    rw [readInteger, htext]
    split
    · rename_i digits hdigits
      have hdigit := @Nat.isDigit_of_mem_toDigits 10 n '-' (by decide) (by decide)
        (by rw [hdigits]; exact List.mem_cons_self)
      cases hdigit
    · rw [hread]
      rfl
  | negSucc n =>
    have htext : (toString (Int.negSucc n)).toList = '-' :: Nat.toDigits 10 (n + 1) := by
      change ("-" ++ Nat.repr (n + 1)).toList = _
      rw [String.toList_append, Nat.toList_repr]
      rfl
    rw [readInteger, htext]
    simp only [readDigits_toDigits]
    rfl

/-- The conversions of the example read what they print. -/
theorem convertsBack_example (data : Bytes) (document : JsonObject) :
    ConvertsBack (exampleEnvironment data document) where
  hasMatch n := congrArg Option.isSome (readInteger_toString n.toInt)
  toLongLong n := by
    have hlower := @BitVec.le_toInt 64 n
    have hupper := @BitVec.toInt_lt 64 n
    change ((readInteger (toString n.toInt)).filter fun n => -2 ^ 63 ≤ n ∧ n < 2 ^ 63).map
      (BitVec.ofInt 64) = some n
    rw [readInteger_toString, Option.filter_some, if_pos (by simp; omega), Option.map_some,
      BitVec.ofInt_toInt]
  toULongLong n := by
    have hupper := n.isLt
    change ((readDigits (toString n.toNat).toList).filter (· < 2 ^ 64)).map (BitVec.ofNat 64) = some n
    rw [readDigits_toString, Option.filter_some, if_pos (by simpa using hupper), Option.map_some,
      BitVec.ofNat_toNat, BitVec.setWidth_eq]
  fromBase64 bytes := by
    change (String.ofList (bytes.map fun b => Char.ofNat b.toNat)).toList.map
      (fun c => UInt8.ofNat c.toNat) = bytes
    rw [String.toList_ofList, List.map_map]
    refine (List.map_congr_left fun b _ => ?_).trans (List.map_id bytes)
    have hvalid : b.toNat.isValidChar := .inl (Nat.lt_of_lt_of_le b.toNat_lt (by decide))
    simp [Char.toNat_ofNat, hvalid]
  negInfinity := rfl
  infinity := rfl
  nan := rfl
  ofFloat v _ _ := ⟨by simp [exampleEnvironment], by simp [exampleEnvironment], rfl⟩
  ofDouble v _ _ := ⟨by simp [exampleEnvironment], rfl, rfl⟩

/-- A trip with a number, a grade and the stop it goes to. -/
def tripSchema : Schema where
  message
    | 0 => ⟨"Trip", [
        { fieldNumber := 1, jsonName := "id", type := .scalar .int64 },
        { fieldNumber := 2, jsonName := "nextStop", type := .message 1 },
        { fieldNumber := 3, jsonName := "grade", type := .enum 0, presence := .optional }],
        by decide, by decide, by decide⟩
    | _ => ⟨"Stop", [{ fieldNumber := 1, jsonName := "names", type := .list .string }],
        by decide, by decide, by decide⟩
  enumKeys _ := [("Easy", 0), ("Hard", 1)]
  findHandler _ := none
  typeName _ := ""

def stop : Message :=
  (tripSchema.defaultMessage (.named 1)).setMember (.field 0) (.scalars .string ["Inn", "Pass"])

def trip : Message :=
  (((tripSchema.defaultMessage (.named 0)).setMember (.field 0)
    (.scalar ⟨.int64, (-7 : BitVec 64)⟩)).setMember (.field 1) (.message 1 stop)).setMember (.field 2)
    (.enumerator 0 1)

/-- The object that the trip is written as. -/
def tripDocument : JsonObject :=
  [("grade", .string "Hard"), ("id", .integer (-7)),
    ("nextStop", .object [("names", .array [.string "Inn", .string "Pass"])])]

/-- JSON tells the messages of the example apart. -/
theorem regular_trip (data : Bytes) (document : JsonObject) :
    Regular (exampleEnvironment data document) tripSchema := by
  have hfields {t : Nat} {f : FieldInfo} (hf : f ∈ (tripSchema.message t).fields) :
      f.type ∈ [.scalar .int64, .message 1, .enum 0, .list .string] := by
    match t with
    | 0 => exact (by decide : ∀ f ∈ (tripSchema.message 0).fields, f.type ∈ _) f hf
    | t + 1 =>
      obtain rfl := List.mem_singleton.mp hf
      decide
  constructor
  · intro t
    match t with
    | 0 => exact tellsApart_of_nodup (by decide) (by decide)
    | t + 1 => exact tellsApart_of_nodup (List.nodup_singleton _) (by simp [tripSchema])
  · intro t f hf h isList htype
    have htypes := hfields hf
    simp [htype] at htypes
  · intro t f hf key value htype
    have htypes := hfields hf
    simp [htype] at htypes
  · intro t f hf u hu
    have htypes := hfields hf
    generalize f.type = type at htypes hu
    simp only [List.mem_cons, List.not_mem_nil, or_false] at htypes
    rcases htypes with rfl | rfl | rfl | rfl
    · exact hu.elim
    · obtain rfl : 1 = u := hu
      exact List.cons_ne_nil _ _
    · exact hu.elim
    · exact hu.elim
  · intro e
    exact (by decide : ["Easy", "Hard"].Nodup)
  · intro e
    exact (by decide : "" ∉ ["Easy", "Hard"])

/-- What the fields of a trip hold. -/
theorem properties_trip {i : Nat} {f : FieldInfo}
    (hf : (tripSchema.propertyOrdering (.named 0)).fields[i]? = some f) :
    trip.messageProperty i f = .scalar ⟨.int64, (-7 : BitVec 64)⟩ ∨
      trip.messageProperty i f = .message 1 stop ∨
      trip.messageProperty i f = .enumerator 0 1 := by
  match i with
  | 0 =>
    cases hf
    exact .inl rfl
  | 1 =>
    cases hf
    exact .inr (.inl rfl)
  | 2 =>
    cases hf
    exact .inr (.inr rfl)
  | _ + 3 => cases hf

/-- What the field of a stop holds. -/
theorem properties_stop {i : Nat} {f : FieldInfo}
    (hf : (tripSchema.propertyOrdering (.named 1)).fields[i]? = some f) :
    stop.messageProperty i f = .scalars .string ["Inn", "Pass"] := by
  match i with
  | 0 =>
    cases hf
    rfl
  | _ + 1 => cases hf

/-- A stop holds no other message. -/
theorem holds_stop {u : MessageType} {n : Message}
    (h : Message.Holds tripSchema (.named 1) stop u n) : u = .named 1 ∧ n = stop := by
  cases h with
  | self => exact ⟨rfl, rfl⟩
  | message hf hv =>
    rw [properties_stop hf] at hv
    cases hv
  | element hf hv =>
    rw [properties_stop hf] at hv
    cases hv
  | value hf hv =>
    rw [properties_stop hf] at hv
    cases hv

/-- A trip holds itself and its stop. -/
theorem holds_trip {u : MessageType} {n : Message}
    (h : Message.Holds tripSchema (.named 0) trip u n) :
    u = .named 0 ∧ n = trip ∨ u = .named 1 ∧ n = stop := by
  cases h with
  | self => exact .inl ⟨rfl, rfl⟩
  | message hf hv h =>
    rcases properties_trip hf with h' | h' | h' <;> rw [h'] at hv <;> cases hv
    exact .inr (holds_stop h)
  | element hf hv =>
    rcases properties_trip hf with h' | h' | h' <;> rw [h'] at hv <;> cases hv
  | value hf hv =>
    rcases properties_trip hf with h' | h' | h' <;> rw [h'] at hv <;> cases hv

/-- Where no type has a serializer of its own, none has to be given back. -/
theorem givesBack_none (t : MessageType) (m : Message) :
    GivesBack (fun _ => none) (fun _ => none) tripSchema t m := by
  intro serializer h
  cases t <;> cases h

/-- Every value of a trip is expressible. -/
theorem fullyExpressible_trip :
    FullyExpressible (fun _ => none) (fun _ => none) tripSchema (.named 0) trip := by
  intro u n h
  rcases holds_trip h with ⟨rfl, rfl⟩ | ⟨rfl, rfl⟩
  · refine ⟨⟨fun i f hf => .inl ?_, by decide, by decide⟩, rfl, fun i f hf hrequired => ?_,
      fun i f hf => ?_, givesBack_none _ _⟩
    · match i with
      | 0 =>
        cases hf
        exact @Value.IsOf.scalar .int64 (-7 : BitVec 64)
      | 1 =>
        cases hf
        exact .message stop
      | 2 =>
        cases hf
        exact .enum (1 : BitVec 32)
      | _ + 3 => cases hf
    · rcases properties_trip hf with h' | h' | h' <;> rw [h'] <;> simp
    · rcases properties_trip hf with h' | h' | h' <;> rw [h']
      · rfl
      · trivial
      · rfl
  · refine ⟨⟨fun i f hf => .inl ?_, by decide, by decide⟩, rfl, fun i f hf hrequired => ?_,
      fun i f hf => ?_, givesBack_none _ _⟩
    · match i with
      | 0 =>
        cases hf
        exact @Value.IsOf.list .string _
      | _ + 1 => cases hf
    · rw [properties_stop hf]
      simp
    · rw [properties_stop hf]
      intro v _
      rfl

/-- The document of a trip is parsed as it was printed. -/
theorem printsBack_trip (data : Bytes) :
    PrintsBack (exampleEnvironment data tripDocument) (fun _ => none) .ofInsertion tripSchema (.named 0)
      trip := by
  intro fuel x y hx h
  obtain ⟨state, types⟩ := x
  simp only at hx
  subst hx
  have hwritten : y.state.result = tripDocument := by
    match fuel with
    | 0 => cases h
    | 1 => cases h
    | fuel + 2 =>
      cases h
      rfl
  have hread : (exampleEnvironment data tripDocument).fromJson data = some (.object tripDocument) :=
    if_pos rfl
  rw [hwritten]
  exact hread

/-- The text of this object. -/
def tripText : Bytes :=
  toUtf8 "\x7b\"grade\":\"Hard\",\"id\":-7,\"nextStop\":\x7b\"names\":[\"Inn\",\"Pass\"]\x7d\x7d"

/-- A trip with a stop, a number and an enumerator. -/
theorem written_roundTrips_trip :
    RoundTrips (exampleEnvironment tripText tripDocument) (fun _ => none) (fun _ => none) .ofInsertion
      tripSchema {} (.named 0) trip :=
  written_roundTrips _ (convertsBack_example _ _) _ _ _ _ (regular_trip _ _) _ 0 trip fullyExpressible_trip
    (printsBack_trip _)

end QtGrpc.Protobuf.Json
