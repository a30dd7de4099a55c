import QtGrpc.Protobuf.DeserializerSteps

/-!
# The calls of a decoding

The run of the decoding loop as a tree of calls: an entry of the loop is followed by the next
entry for the same message, and may contain the decoding of a nested message before that. Facts
about every nested message of a run are facts about the calls of this tree.
-/

namespace QtGrpc.Protobuf

/-- The arguments of an entry of the loop of `deserializeMessage`. -/
structure LoopCall (σ : Type) where
  fuel : Nat
  type : MessageType
  seen : List Nat := []
  cache : Cache := {}
  state : σ
  message : Message

/-- A field that an entry of the loop has found, with the property selected for it. -/
structure Iteration (σ : Type) where
  fuel : Nat
  index : Nat
  field : FieldInfo
  cache : Cache
  state : σ
  message : Message

variable {σ : Type} (b : Format σ) (S : Schema)

namespace LoopCall

def result (c : LoopCall σ) : σ × Message × Outcome :=
  deserializeLoop b S c.fuel c.type c.seen c.cache c.state c.message

/-- The field that is decoded in an entry of the loop, if it comes to that. -/
def iteration (c : LoopCall σ) : Option (Iteration σ) :=
  match c.fuel with
  | 0 => none
  | fuel + 1 =>
    match b.nextFieldIndex (fuel + 1) c.type c.state c.message with
    | (s, m, .field i) =>
      match (S.propertyOrdering c.type).fields[i]? with
      | none => none
      | some f =>
        match selectProperty S c.type i f c.cache m with
        | (cache, m, true) => some ⟨fuel, i, f, cache, s, m⟩
        | _ => none
    | _ => none

end LoopCall

namespace Iteration

def result (x : Iteration σ) : FieldResult σ :=
  deserializeProperty b S (deserializeMessageField b S x.fuel) x.index x.field x.cache x.state
    x.message

/-- The call of `deserializeMessageField` that a registered handler makes. -/
def handlerField (x : Iteration σ) : Option (MessageType × σ × Message) :=
  match b.deserializeScalarField x.field x.state x.cache.propertyValue with
  | (_, _, true) => none
  | (s, _, false) => (S.handlerOf x.field.type).map fun handler =>
      (handler.proxy, s, S.defaultMessage handler.proxy)

/-- The call of `deserializeMessageField` for the field. -/
def messageField (x : Iteration σ) : Option (MessageType × σ × Message) :=
  match x.field.type, x.cache.propertyValue with
  | .message t, .message _ sub => some (.named t, x.state, sub)
  | .messageList t, .messages .. => some (.named t, x.state, S.defaultMessage (.named t))
  | .hash key value, .hash _ =>
    some (.mapEntry key value, x.state, S.addNext key value x.cache.mapEntry)
  | .enum _, _ | .enumList _, _ => none
  | _, _ => x.handlerField b S

end Iteration

namespace LoopCall

/-- The next entry of the loop for the same message. -/
def next (c : LoopCall σ) : Option (LoopCall σ) :=
  (c.iteration b S).bind fun x =>
    match (x.result b S).stop with
    | some _ => none
    | none => some ⟨x.fuel, c.type, x.index :: c.seen, (x.result b S).cache, (x.result b S).state,
        (x.result b S).message⟩

/-- The decoding of a nested message, unless the format does something in its place. -/
def nested (c : LoopCall σ) : Option (LoopCall σ) :=
  (c.iteration b S).bind fun x => (x.messageField b S).bind fun (t, s, m) =>
    match b.interceptMessageField t s m with
    | some _ => none
    | none => some { fuel := x.fuel, type := t, state := s, message := m }

/-- The entries of the loop for one message. -/
inductive Iterates : LoopCall σ → LoopCall σ → Prop where
  | refl (c : LoopCall σ) : Iterates c c
  | next {c c' e : LoopCall σ} (h : c.next b S = some c') (he : Iterates c' e) : Iterates c e

/-- The decodings of nested messages in the run from an entry of the loop on. -/
inductive NestedIn : LoopCall σ → LoopCall σ → Prop where
  | here {c d : LoopCall σ} (h : c.nested b S = some d) : NestedIn c d
  | inside {c d e : LoopCall σ} (h : c.nested b S = some d) (he : NestedIn d e) : NestedIn c e
  | later {c c' e : LoopCall σ} (h : c.next b S = some c') (he : NestedIn c' e) : NestedIn c e

variable {b S}

/-- What was found in an iteration: the fuel goes down, `nextFieldIndex` returned the index of the
field, and its property was selected. -/
theorem iteration_eq_some {c : LoopCall σ} {x : Iteration σ} (h : c.iteration b S = some x) :
    c.fuel = x.fuel + 1 ∧ ∃ m,
      b.nextFieldIndex (x.fuel + 1) c.type c.state c.message = (x.state, m, .field x.index) ∧
      (S.propertyOrdering c.type).fields[x.index]? = some x.field ∧
      selectProperty S c.type x.index x.field c.cache m = (x.cache, x.message, true) := by
  unfold iteration at h
  split at h
  · cases h
  · rename_i fuel hfuel
    split at h
    · rename_i s m i hnext
      split at h
      · cases h
      · rename_i f hf
        split at h
        · rename_i cache m' hselect
          obtain rfl := Option.some.inj h
          exact ⟨hfuel, m, hnext, hf, hselect⟩
        · cases h
    · cases h

/-- The next turn of the loop begins with what this one left. -/
theorem next_eq_some {c c' : LoopCall σ} (h : c.next b S = some c') :
    ∃ x, c.iteration b S = some x ∧ (x.result b S).stop = none ∧
      c' = ⟨x.fuel, c.type, x.index :: c.seen, (x.result b S).cache, (x.result b S).state,
        (x.result b S).message⟩ := by
  obtain ⟨x, hx, hc'⟩ := Option.bind_eq_some_iff.mp h
  split at hc'
  · cases hc'
  · rename_i hstop
    exact ⟨x, hx, hstop, (Option.some.inj hc').symm⟩

/-- A nested loop begins with the state and the message of the field that it is for. -/
theorem nested_eq_some {c d : LoopCall σ} (h : c.nested b S = some d) :
    ∃ x, c.iteration b S = some x ∧ x.messageField b S = some (d.type, d.state, d.message) ∧
      b.interceptMessageField d.type d.state d.message = none ∧
      d = { fuel := x.fuel, type := d.type, state := d.state, message := d.message } := by
  obtain ⟨x, hx, hd⟩ := Option.bind_eq_some_iff.mp h
  obtain ⟨⟨t, s, m⟩, hcall, hd⟩ := Option.bind_eq_some_iff.mp hd
  cases hintercept : b.interceptMessageField t s m with
  | some r => simp [hintercept] at hd
  | none =>
    obtain rfl : _ = d := by simpa [hintercept] using hd
    exact ⟨x, hx, hcall, hintercept, rfl⟩

/-- The next turn has less fuel. -/
theorem fuel_of_next {c c' : LoopCall σ} (h : c.next b S = some c') : c'.fuel < c.fuel := by
  obtain ⟨x, hx, -, rfl⟩ := next_eq_some h
  exact Nat.lt_of_lt_of_eq (Nat.lt_succ_self _) (iteration_eq_some hx).1.symm

/-- A nested loop has less fuel. -/
theorem fuel_of_nested {c d : LoopCall σ} (h : c.nested b S = some d) : d.fuel < c.fuel := by
  obtain ⟨x, hx, -, -, hd⟩ := nested_eq_some h
  rw [(iteration_eq_some hx).1, hd]
  exact Nat.lt_succ_self _

/-- An entry of the loop that has found a field returns after it, or enters the loop again. -/
theorem result_of_iteration {c : LoopCall σ} {x : Iteration σ} (h : c.iteration b S = some x) :
    c.result b S = match (x.result b S).stop with
      | some outcome => ((x.result b S).state, (x.result b S).message, outcome)
      | none => deserializeLoop b S x.fuel c.type (x.index :: c.seen) (x.result b S).cache
          (x.result b S).state (x.result b S).message := by
  obtain ⟨hfuel, m, hnext, hf, hselect⟩ := iteration_eq_some h
  rw [result, hfuel, deserializeLoop_succ, hnext]
  simp only [hf, hselect]
  rfl

/-- A turn that is followed by another has that one's result. -/
theorem result_of_next {c c' : LoopCall σ} (h : c.next b S = some c') :
    c.result b S = c'.result b S := by
  obtain ⟨x, hx, hstop, rfl⟩ := next_eq_some h
  rw [result_of_iteration hx, hstop]
  rfl

/-- Where `nextFieldIndex` finds no further field, the message is finished. -/
theorem result_of_finished {c : LoopCall σ} {fuel : Nat} (hfuel : c.fuel = fuel + 1)
    (h : (b.nextFieldIndex (fuel + 1) c.type c.state c.message).2.2 = .finished) :
    ∃ ok, (c.result b S).2.2 = .returned ok ∧
      FinishStep b S c.type (b.nextFieldIndex (fuel + 1) c.type c.state c.message).1
        (c.result b S).1 ok := by
  rw [result, hfuel, deserializeLoop_succ]
  generalize b.nextFieldIndex (fuel + 1) c.type c.state c.message = r at h ⊢
  obtain ⟨s, m, next⟩ := r
  obtain rfl : next = .finished := h
  exact finishMessage_step b S c.type c.seen c.cache s m

/-- Without a field, the loop ends behind `nextFieldIndex`. -/
theorem result_of_no_iteration {c : LoopCall σ} {fuel : Nat} (hfuel : c.fuel = fuel + 1)
    (h : c.iteration b S = none) :
    let s := (b.nextFieldIndex (fuel + 1) c.type c.state c.message).1
    (c.result b S).1 = s ∨ (c.result b S).1 = failToStore b s ∨
      ∃ ok, FinishStep b S c.type s (c.result b S).1 ok := by
  rw [result, hfuel, deserializeLoop_succ]
  unfold iteration at h
  rw [hfuel] at h
  simp only at h
  generalize b.nextFieldIndex (fuel + 1) c.type c.state c.message = r at h ⊢
  obtain ⟨s, m, next⟩ := r
  cases next with
  | outOfFuel => exact .inl rfl
  | finished =>
    obtain ⟨ok, -, hfinish⟩ := finishMessage_step b S c.type c.seen c.cache s m
    exact .inr (.inr ⟨ok, hfinish⟩)
  | field i =>
    simp only at h ⊢
    cases hf : (S.propertyOrdering c.type).fields[i]? with
    | none =>
      simp only [hf] at h ⊢
      exact .inl trivial
    | some f =>
      simp only [hf] at h ⊢
      split at h
      · cases h
      · rename_i hne
        split
        · exact .inr (.inl rfl)
        · rename_i cache' m' hselect
          exact absurd hselect (hne cache' m')

end LoopCall

namespace Iteration

variable {b S}

/-- A field calls `deserializeMessageField` for its own messages, or reads an enumerator, or is left
to a handler. -/
inductive Calls (x : Iteration σ) : Prop where
  | message (t : MessageType) (m : Message) (hcall : x.messageField b S = some (t, x.state, m))
      (hstate : (x.result b S).state = (deserializeMessageField b S x.fuel t x.state m).1)
  | enum (v : Value) (hf : x.field.type.isEnum) (hcall : x.messageField b S = none)
      (hstate : (x.result b S).state = (b.deserializeEnum x.field x.state v).1 ∨
        ∃ error text, (x.result b S).state =
          b.setError (b.deserializeEnum x.field x.state v).1 error text)
  | handler (hcall : x.messageField b S = x.handlerField b S)
      (hresult : x.result b S = deserializeWithHandler b S (deserializeMessageField b S x.fuel)
        x.field x.cache x.state x.message)

/-- The loop calls made inside a turn are those of its nested message. -/
theorem calls (x : Iteration σ) : Calls (b := b) (S := S) x := by
  have hcall : x.messageField b S = x.messageField b S := rfl
  conv at hcall => rhs; unfold messageField
  split at hcall
  case h_1 hf hv | h_2 hf hv | h_3 hf hv =>
    refine .message _ _ hcall ?_
    unfold result deserializeProperty
    simp only [hf, hv]
    try split <;> rfl
  case h_4 hf | h_5 hf =>
    refine .enum x.cache.propertyValue (by simp [PropertyType.isEnum, hf]) hcall ?_
    unfold result deserializeProperty
    simp only [hf]
    generalize b.deserializeEnum x.field x.state x.cache.propertyValue = r
    obtain ⟨s, v, ok⟩ := r
    cases ok with
    | true => exact .inl rfl
    | false => exact .inr ⟨_, _, rfl⟩
  case h_6 _ _ henum henumList hmessage hlist hhash =>
    refine .handler hcall ?_
    unfold result deserializeProperty
    split
    case h_1 hf hv => exact (hmessage _ _ _ hf hv).elim
    case h_2 hf hv => exact (hlist _ _ _ hf hv).elim
    case h_3 hf hv => exact (hhash _ _ _ hf hv).elim
    case h_4 hf => exact (henum _ hf).elim
    case h_5 hf => exact (henumList _ hf).elim
    case h_6 => rfl

/-- A field with a handler goes on from the state that its own loop left. -/
theorem handlerField_eq_some {x : Iteration σ} {t : MessageType} {s : σ} {m : Message}
    (h : x.handlerField b S = some (t, s, m)) :
    s = (b.deserializeScalarField x.field x.state x.cache.propertyValue).1 ∧
      ∀ nested : MessageType → σ → Message → σ × Message × Outcome,
        (deserializeWithHandler b S nested x.field x.cache x.state x.message).state =
          (nested t s m).1 := by
  unfold handlerField at h
  unfold deserializeWithHandler
  generalize b.deserializeScalarField x.field x.state x.cache.propertyValue = r at h ⊢
  obtain ⟨s', v, ok⟩ := r
  cases ok with
  | true => cases h
  | false =>
    obtain ⟨handler, hhandler, hcall⟩ := Option.map_eq_some_iff.mp h
    simp only [Prod.mk.injEq] at hcall
    obtain ⟨rfl, rfl, rfl⟩ := hcall
    refine ⟨rfl, fun nested => ?_⟩
    simp only [hhandler]
    split
    all_goals simp_all

/-- A handler that makes no call: the scalar deserializer did it all, or the loop is left. -/
theorem handlerField_eq_none {x : Iteration σ} (h : x.handlerField b S = none)
    (nested : MessageType → σ → Message → σ × Message × Outcome) :
    let r := b.deserializeScalarField x.field x.state x.cache.propertyValue
    let result := deserializeWithHandler b S nested x.field x.cache x.state x.message
    r.2.2 = true ∧ result.state = r.1 ∨
      r.2.2 = false ∧ result.stop = some (.returned false) ∧
        ∃ error text, result.state = b.setError r.1 error text := by
  unfold handlerField at h
  unfold deserializeWithHandler
  generalize b.deserializeScalarField x.field x.state x.cache.propertyValue = r at h ⊢
  obtain ⟨s', v, ok⟩ := r
  cases ok with
  | true => exact .inl ⟨rfl, rfl⟩
  | false =>
    have hhandler : S.handlerOf x.field.type = none := by simpa using h
    refine .inr ⟨rfl, ?_, .unknownType,
      "No deserializer is registered for type " ++ S.typeName x.field.type, ?_⟩
    all_goals simp only [hhandler]

/-- The state behind a field is what its message left. -/
theorem state_of_messageField {x : Iteration σ} {t : MessageType} {s : σ} {m : Message}
    (h : x.messageField b S = some (t, s, m)) :
    (x.result b S).state = (deserializeMessageField b S x.fuel t s m).1 := by
  cases x.calls (b := b) (S := S) with
  | message t' m' hcall hstate =>
    obtain ⟨rfl, rfl, rfl⟩ : _ ∧ _ ∧ _ := by simpa using hcall.symm.trans h
    exact hstate
  | enum v hf hcall => simp [hcall] at h
  | handler hcall hresult =>
    rw [hresult]
    exact (handlerField_eq_some (hcall.symm.trans h)).2 _

end Iteration

end QtGrpc.Protobuf
