import QtGrpc.Protobuf.Calls
import QtGrpc.Protobuf.Json.Steps

/-!
# The stack of the JSON decoder

`nextFieldIndex` pushes a state for a nested object, and another call of `nextFieldIndex` is
expected to pop it. A nested message leaves the stack as it was before the push exactly if each
message inside it, and the message itself, ends where `nextFieldIndex` pops. Everything else that
ends a message leaves its state behind, and the fields of the message around it are then looked
up in the wrong object.
-/

namespace QtGrpc.Protobuf.Json

/-- An entry of the decoding loop. -/
abbrev Call := LoopCall Deserializer

variable (env : JsonEnvironment) (custom : CustomDeserializers) (S : Schema)

/-- The decoding leaves the stack as it was before the state on top was pushed. -/
def Balanced (d : Call) : Prop :=
  ∃ ok, (d.result (format env custom S) S).2.2 = .returned ok ∧
    (d.result (format env custom S) S).1.state = d.state.state.tail

/-- The fields of the message are looked up in the state that was on top at its beginning. -/
def OwnsKeys (d : Call) : Prop :=
  ∀ e, d.Iterates (format env custom S) S e → ∃ top, e.state.state = top :: d.state.state.tail

/-- The stack discipline of a decoding: every nested message is balanced, and every key is matched
against the fields of the message whose object it belongs to. -/
def Disciplined (c : Call) : Prop :=
  OwnsKeys env custom S c ∧
    ∀ d, c.NestedIn (format env custom S) S d → Balanced env custom S d ∧ OwnsKeys env custom S d

/-- The entry of the loop in which `nextFieldIndex` pops: the message has fields, and none of them
is left in the object on top. -/
def Pops (e : Call) : Prop :=
  e.fuel ≠ 0 ∧ (S.propertyOrdering e.type).fields ≠ [] ∧
    ∃ top rest, e.state.state = top :: rest ∧ Ended env S e.type top

/-- The message ends where `nextFieldIndex` pops. -/
def EndsByPop (d : Call) : Prop := ∃ e, d.Iterates (format env custom S) S e ∧ Pops env S e

variable {env custom S}

theorem nextFieldIndex_of_pops {s : Deserializer} {t : MessageType} {top : JsonState}
    {rest : List JsonState} (hstate : s.state = top :: rest)
    (hfields : (S.propertyOrdering t).fields ≠ []) (hended : Ended env S t top) :
    nextFieldIndex env S t s = ({ s.met .asked with state := rest }, .finished) := by
  unfold nextFieldIndex
  rw [if_neg (by simpa using hfields)]
  have hended' : findField env ((S.propertyOrdering t).fields.drop top.index)
    { top with scalarValue := some .null } = .ended := hended
  simp [Deserializer.met, hstate, hended']

theorem balanced_of_pops {e : Call} (h : Pops env S e) : Balanced env custom S e := by
  obtain ⟨hfuel, hfields, top, rest, hstate, hended⟩ := h
  obtain ⟨fuel, hfuel⟩ := Nat.exists_eq_succ_of_ne_zero hfuel
  have hnext := nextFieldIndex_of_pops hstate hfields hended
  obtain ⟨ok, hok, hfinish⟩ := LoopCall.result_of_finished (b := format env custom S) (S := S)
    (c := e) hfuel (congrArg Prod.snd hnext)
  refine ⟨ok, hok, ?_⟩
  rw [finishStep_state env custom S hfinish, hstate]
  exact congrArg (·.1.state) hnext

/-- What `nextFieldIndex` leaves on the stack with a field: a scalar value, or a pushed state. -/
theorem NextStep.field_state {t : MessageType} {s s' : Deserializer} {i : Nat} {top : JsonState}
    {rest : List JsonState} (hstate : s.state = top :: rest)
    (h : NextStep env S t s s' (.field i)) :
    (∃ top', s'.state = top' :: rest ∧ s'.scalarValue?.isSome) ∨
      ∃ pushed top' f, s'.state = { obj := pushed } :: top' :: rest ∧
        (S.propertyOrdering t).fields[i]? = some f ∧ f.type.isMessage := by
  cases h with
  | scalar top₀ top' rest₀ i f val value hstate₀ hf hvalue =>
    obtain ⟨rfl, rfl⟩ : top = top₀ ∧ rest = rest₀ := by simpa [hstate] using hstate₀
    exact .inl ⟨top', rfl, by simp [Deserializer.scalarValue?, hvalue]⟩
  | object pushed top₀ top' rest₀ i f val hstate₀ hf hmessage =>
    obtain ⟨rfl, rfl⟩ : top = top₀ ∧ rest = rest₀ := by simpa [hstate] using hstate₀
    exact .inr ⟨pushed, top', f, rfl, hf, hmessage⟩

/-- The call for a nested message is made with the states that `nextFieldIndex` left. -/
theorem messageField_state {x : Iteration Deserializer} {t : MessageType} {s : Deserializer}
    {m : Message} (h : x.messageField (format env custom S) S = some (t, s, m)) :
    s.state = x.state.state := by
  cases x.calls (b := format env custom S) (S := S) with
  | message t' m' hcall =>
    obtain ⟨rfl, rfl, rfl⟩ : _ ∧ _ ∧ _ := by simpa using hcall.symm.trans h
    rfl
  | enum v hf hcall => simp [hcall] at h
  | handler hcall =>
    rw [(Iteration.handlerField_eq_some (hcall.symm.trans h)).1]
    exact state_deserializeScalarField env _ _ _

/-- A field that calls for no message leaves the stack alone, and stops the loop if it is of
message type. -/
theorem no_messageField_state {x : Iteration Deserializer}
    (h : x.messageField (format env custom S) S = none) :
    (x.result (format env custom S) S).state.state = x.state.state ∧
      (x.field.type.isMessage → (x.result (format env custom S) S).stop ≠ none) := by
  cases x.calls (b := format env custom S) (S := S) with
  | message t m hcall => simp [hcall] at h
  | enum v hf hcall hstate =>
    refine ⟨?_, fun hmessage => ?_⟩
    · rcases hstate with hstate | ⟨error, text, hstate⟩ <;> rw [hstate] <;> rfl
    · cases htype : x.field.type <;>
        simp_all [PropertyType.isEnum, PropertyType.isMessage]
  | handler hcall hresult =>
    have hscalar := state_deserializeScalarField env x.field x.state x.cache.propertyValue
    rw [hresult]
    rcases Iteration.handlerField_eq_none (hcall.symm.trans h) (deserializeMessageField
      (format env custom S) S x.fuel) with ⟨hok, hstate⟩ | ⟨hok, hstop, error, text, hstate⟩
    · refine ⟨by rw [hstate]; exact hscalar, fun hmessage => ?_⟩
      have hfalse := deserializeScalarField_of_isMessage env x.field x.state x.cache.propertyValue
        hmessage
      have hok' : (deserializeScalarField env x.field x.state x.cache.propertyValue).2.2 = true :=
        hok
      simp [hfalse] at hok'
    · exact ⟨by rw [hstate]; exact hscalar, fun _ => by simp [hstop]⟩

/-- What one iteration leaves on the stack: what the nested message leaves, or the state of the
message itself, or, if the loop is left, a state that was pushed for nothing. -/
theorem iteration_state {c : Call} {x : Iteration Deserializer} {top : JsonState}
    {rest : List JsonState} (hstate : c.state.state = top :: rest)
    (hx : c.iteration (format env custom S) S = some x) :
    ∃ top' : JsonState,
      (∃ d pushed, c.nested (format env custom S) S = some d ∧
        d.state.state = pushed :: top' :: rest ∧
        (x.result (format env custom S) S).state =
          (d.result (format env custom S) S).1) ∨
      c.nested (format env custom S) S = none ∧
        (x.result (format env custom S) S).state.state = top' :: rest ∨
      c.nested (format env custom S) S = none ∧
        (x.result (format env custom S) S).stop ≠ none ∧
        ∃ pushed, (x.result (format env custom S) S).state.state = pushed :: top' :: rest := by
  obtain ⟨hfuel, m, hnext, hf, -⟩ := LoopCall.iteration_eq_some hx
  have hstep := nextFieldIndex_step env S c.type c.state
  have hs : (nextFieldIndex env S c.type c.state).1 = x.state := congrArg Prod.fst hnext
  have hi : (nextFieldIndex env S c.type c.state).2 = .field x.index :=
    congrArg (·.2.2) hnext
  rw [hs, hi] at hstep
  cases hcall : x.messageField (format env custom S) S with
  | none =>
    obtain ⟨hresult, hstop⟩ := no_messageField_state hcall
    have hnested : c.nested (format env custom S) S = none := by
      simp [LoopCall.nested, hx, hcall]
    rcases hstep.field_state hstate with ⟨top', hs', -⟩ | ⟨pushed, top', f, hs', hf', hmessage⟩
    · exact ⟨top', .inr (.inl ⟨hnested, hresult.trans hs'⟩)⟩
    · obtain rfl : f = x.field := by simpa [hf'] using hf
      exact ⟨top', .inr (.inr ⟨hnested, hstop hmessage, _, hresult.trans hs'⟩)⟩
  | some call =>
    obtain ⟨t, s, m'⟩ := call
    have hresult := Iteration.state_of_messageField hcall
    have hcallState := messageField_state hcall
    rcases hstep.field_state hstate with ⟨top', hs', hvalue⟩ | ⟨pushed, top', f, hs', -, -⟩
    · have hvalue' : s.scalarValue?.isSome := by
        rwa [Deserializer.scalarValue?, hcallState]
      obtain ⟨r, hr⟩ := Option.isSome_iff_exists.mp
        (interceptMessageField_isSome custom (t := t) (m := m') hvalue')
      have hintercept : (format env custom S).interceptMessageField t s m' = some r := hr
      refine ⟨top', .inr (.inl ⟨?_, ?_⟩)⟩
      · simp [LoopCall.nested, hx, hcall, hintercept]
      · rw [hresult, deserializeMessageField_defined env custom S _ t s m' hvalue', hcallState, hs']
    · have hintercept : (format env custom S).interceptMessageField t s m' = none := by
        simp [format, interceptMessageField, Deserializer.scalarValue?, hcallState, hs']
      refine ⟨top', .inl ⟨{ fuel := x.fuel, type := t, state := s, message := m' },
        { obj := pushed }, ?_, hcallState.trans hs', ?_⟩⟩
      · simp [LoopCall.nested, hx, hcall, hintercept]
      · simp only [hresult, deserializeMessageField, hintercept]
        rfl

/-- Where nested messages are balanced, an iteration leaves the state of the message itself on top,
or the loop is left with a state more. -/
theorem next_state {c c' : Call} {top : JsonState} {rest : List JsonState}
    (hstate : c.state.state = top :: rest)
    (hbalanced : ∀ d, c.nested (format env custom S) S = some d → Balanced env custom S d)
    (h : c.next (format env custom S) S = some c') : ∃ top', c'.state.state = top' :: rest := by
  obtain ⟨x, hx, hstop, rfl⟩ := LoopCall.next_eq_some h
  obtain ⟨top', ⟨d, pushed, hd, hpushed, hresult⟩ | ⟨-, hresult⟩ | ⟨-, hne, -⟩⟩ :=
    iteration_state hstate hx
  · obtain ⟨ok, -, hd'⟩ := hbalanced d hd
    exact ⟨top', by simp only [hresult, hd', hpushed, List.tail_cons]⟩
  · exact ⟨top', hresult⟩
  · exact absurd hstop hne

theorem nested_state {c d : Call} {top : JsonState} {rest : List JsonState}
    (hstate : c.state.state = top :: rest) (h : c.nested (format env custom S) S = some d) :
    ∃ pushed rest', d.state.state = pushed :: rest' := by
  obtain ⟨x, hx, -⟩ := LoopCall.nested_eq_some h
  obtain ⟨top', ⟨d', pushed, hd', hpushed, -⟩ | ⟨hnone, -⟩ | ⟨hnone, -⟩⟩ := iteration_state hstate hx
  · obtain rfl : d' = d := by simpa [hd'] using h
    exact ⟨pushed, _, hpushed⟩
  · simp [hnone] at h
  · simp [hnone] at h

/-- If every nested message ends where `nextFieldIndex` pops, the stack discipline holds. -/
theorem disciplined_of_endsByPop (n : Nat) (c : Call) (hn : c.fuel ≤ n) (top : JsonState)
    (rest : List JsonState) (hstate : c.state.state = top :: rest)
    (hends : ∀ d, c.NestedIn (format env custom S) S d → EndsByPop env custom S d) :
    Disciplined env custom S c ∧ (EndsByPop env custom S c → Balanced env custom S c) := by
  induction n using Nat.strong_induction_on generalizing c top rest with
  | _ n ih =>
  have hnested : ∀ d, c.nested (format env custom S) S = some d →
      Disciplined env custom S d ∧ Balanced env custom S d := by
    intro d hd
    obtain ⟨pushed, rest', hpushed⟩ := nested_state hstate hd
    have hfuel := LoopCall.fuel_of_nested hd
    obtain ⟨hdisciplined, hbalanced⟩ := ih d.fuel (by omega) d (Nat.le_refl _) pushed rest' hpushed
      fun e he => hends e (.inside hd he)
    exact ⟨hdisciplined, hbalanced (hends d (.here hd))⟩
  have hnext : ∀ c', c.next (format env custom S) S = some c' →
      (∃ top', c'.state.state = top' :: rest) ∧ Disciplined env custom S c' ∧
        (EndsByPop env custom S c' → Balanced env custom S c') := by
    intro c' hc'
    obtain ⟨top', htop'⟩ := next_state hstate (fun d hd => (hnested d hd).2) hc'
    have hfuel := LoopCall.fuel_of_next hc'
    exact ⟨⟨top', htop'⟩, ih c'.fuel (by omega) c' (Nat.le_refl _) top' rest htop'
      fun e he => hends e (.later hc' he)⟩
  refine ⟨⟨fun e he => ?_, fun d hd => ?_⟩, fun ⟨e, he, hpops⟩ => ?_⟩
  · cases he with
    | refl => exact ⟨top, by rw [hstate, List.tail_cons]⟩
    | next hc' he =>
      obtain ⟨⟨top', htop'⟩, ⟨howns, -⟩, -⟩ := hnext _ hc'
      simpa [hstate, htop'] using howns e he
  · cases hd with
    | here hd => exact ⟨(hnested d hd).2, (hnested d hd).1.1⟩
    | inside hd' he => exact (hnested _ hd').1.2 d he
    | later hc' he => exact (hnext _ hc').2.1.2 d he
  · cases he with
    | refl => exact balanced_of_pops hpops
    | next hc' he =>
      obtain ⟨⟨top', htop'⟩, -, hbalanced⟩ := hnext _ hc'
      obtain ⟨ok, hok, hresult⟩ := hbalanced ⟨e, he, hpops⟩
      rw [← LoopCall.result_of_next hc'] at hok hresult
      exact ⟨ok, hok, by rw [hresult, htop', hstate, List.tail_cons, List.tail_cons]⟩

/-- Behind `nextFieldIndex` the own state of a message is gone only if it was popped. -/
theorem NextStep.state_or_pops {c : Call} {s' : Deserializer} {next : NextField} {top : JsonState}
    {rest : List JsonState} (hfuel : c.fuel ≠ 0) (hstate : c.state.state = top :: rest)
    (h : NextStep env S c.type c.state s' next) : Pops env S c ∨ s'.state ≠ rest := by
  cases h with
  | noFields => exact .inr (by simp [hstate])
  | noState hnil => simp [hstate] at hnil
  | popped top₀ rest₀ hstate₀ hfields hended =>
    exact .inl ⟨hfuel, hfields, top₀, rest₀, hstate₀, hended⟩
  | wrongShape top₀ top' rest₀ f value hstate₀ =>
    obtain ⟨rfl, rfl⟩ : top = top₀ ∧ rest = rest₀ := by simpa [hstate] using hstate₀
    exact .inr (by simp [Deserializer.met])
  | scalar top₀ top' rest₀ i f val value hstate₀ =>
    obtain ⟨rfl, rfl⟩ : top = top₀ ∧ rest = rest₀ := by simpa [hstate] using hstate₀
    exact .inr (by simp)
  | object pushed top₀ top' rest₀ i f val hstate₀ =>
    obtain ⟨rfl, rfl⟩ : top = top₀ ∧ rest = rest₀ := by simpa [hstate] using hstate₀
    exact .inr fun h => by
      have hlength := congrArg List.length h
      simp only [state_met, List.length_cons] at hlength
      omega

/-- Where the loop is left, the own state of the message is gone only if it was popped. -/
theorem state_of_no_next {c : Call} {top : JsonState} {rest : List JsonState}
    (hstate : c.state.state = top :: rest)
    (hbalanced : ∀ d, c.nested (format env custom S) S = some d → Balanced env custom S d)
    (h : c.next (format env custom S) S = none) :
    Pops env S c ∨ (c.result (format env custom S) S).1.state ≠ rest := by
  cases hx : c.iteration (format env custom S) S with
  | none =>
    cases hfuel : c.fuel with
    | zero =>
      right
      simp [LoopCall.result, hfuel, deserializeLoop, hstate]
    | succ fuel =>
      have hstep := (nextFieldIndex_step env S c.type c.state).state_or_pops
        (by rw [hfuel]; exact Nat.succ_ne_zero _) hstate
      refine hstep.imp id fun hne => ?_
      have hsame : (c.result (format env custom S) S).1.state =
          (nextFieldIndex env S c.type c.state).1.state := by
        rcases LoopCall.result_of_no_iteration hfuel hx with h | h | ⟨ok, h⟩
        · rw [h]; rfl
        · rw [h]; rfl
        · exact finishStep_state env custom S h
      rwa [hsame]
  | some x =>
    right
    cases hstop : (x.result (format env custom S) S).stop with
    | none => simp [LoopCall.next, hx, hstop] at h
    | some outcome =>
      rw [LoopCall.result_of_iteration hx, hstop]
      obtain ⟨top', ⟨d, pushed, hd, hpushed, hresult⟩ | ⟨-, hresult⟩ | ⟨-, -, pushed, hresult⟩⟩ :=
        iteration_state hstate hx
      · obtain ⟨ok, -, hd'⟩ := hbalanced d hd
        simp [hresult, hd', hpushed]
      · simp [hresult]
      · intro h
        have hlength := congrArg List.length (hresult.symm.trans h)
        simp only [List.length_cons] at hlength
        omega

/-- Nested messages that are balanced end where `nextFieldIndex` pops, and so does the message
itself if its state is gone behind it. -/
theorem endsByPop_of_balanced (n : Nat) (c : Call) (hn : c.fuel ≤ n) (top : JsonState)
    (rest : List JsonState) (hstate : c.state.state = top :: rest)
    (hbalanced : ∀ d, c.NestedIn (format env custom S) S d → Balanced env custom S d) :
    (∀ d, c.NestedIn (format env custom S) S d → EndsByPop env custom S d) ∧
      ((c.result (format env custom S) S).1.state = rest → EndsByPop env custom S c) := by
  induction n using Nat.strong_induction_on generalizing c top rest with
  | _ n ih =>
  have hnested : ∀ d, c.nested (format env custom S) S = some d → EndsByPop env custom S d ∧
      ∀ e, d.NestedIn (format env custom S) S e → EndsByPop env custom S e := by
    intro d hd
    obtain ⟨pushed, rest', hpushed⟩ := nested_state hstate hd
    have hfuel := LoopCall.fuel_of_nested hd
    obtain ⟨hinside, hown⟩ := ih d.fuel (by omega) d (Nat.le_refl _) pushed rest' hpushed
      fun e he => hbalanced e (.inside hd he)
    obtain ⟨ok, -, hresult⟩ := hbalanced d (.here hd)
    exact ⟨hown (by rw [hresult, hpushed, List.tail_cons]), hinside⟩
  have hnext : ∀ c', c.next (format env custom S) S = some c' →
      (∀ d, c'.NestedIn (format env custom S) S d → EndsByPop env custom S d) ∧
        ((c'.result (format env custom S) S).1.state = rest → EndsByPop env custom S c') := by
    intro c' hc'
    obtain ⟨top', htop'⟩ := next_state hstate (fun d hd => hbalanced d (.here hd)) hc'
    have hfuel := LoopCall.fuel_of_next hc'
    exact ih c'.fuel (by omega) c' (Nat.le_refl _) top' rest htop'
      fun e he => hbalanced e (.later hc' he)
  refine ⟨fun d hd => ?_, fun hresult => ?_⟩
  · cases hd with
    | here hd => exact (hnested d hd).1
    | inside hd' he => exact (hnested _ hd').2 d he
    | later hc' he => exact (hnext _ hc').1 d he
  · cases hc' : c.next (format env custom S) S with
    | some c' =>
      rw [LoopCall.result_of_next hc'] at hresult
      obtain ⟨e, he, hpops⟩ := (hnext c' hc').2 hresult
      exact ⟨e, .next hc' he, hpops⟩
    | none =>
      have hstay := state_of_no_next hstate (fun d hd => hbalanced d (.here hd)) hc'
      exact ⟨c, .refl c, hstay.resolve_right fun h => h hresult⟩

/-- The call that `deserializeObject` makes for a document. -/
def documentCall (S : Schema) (t : MessageType) (obj : JsonObject) (m : Message) : Call :=
  { fuel := decodingBound S obj.size t, type := t, state := { state := [{ obj }] }, message := m }

/-- The stack discipline holds in the decoding of a document if and only if every nested message
in it ends where `nextFieldIndex` pops. -/
theorem disciplined_iff (env : JsonEnvironment) (custom : CustomDeserializers) (S : Schema)
    (t : MessageType) (obj : JsonObject) (m : Message) :
    Disciplined env custom S (documentCall S t obj m) ↔
      ∀ d, (documentCall S t obj m).NestedIn (format env custom S) S d →
        EndsByPop env custom S d := by
  constructor
  · intro h
    exact (endsByPop_of_balanced _ _ (Nat.le_refl _) { obj } [] rfl fun d hd => (h.2 d hd).1).1
  · intro h
    exact (disciplined_of_endsByPop _ _ (Nat.le_refl _) { obj } [] rfl h).1

/-- A message type with a field of a type without fields, and an integer behind it. -/
def emptyFirstSchema : Schema where
  message
    | 0 => ⟨"Outer", [
        { fieldNumber := 1, jsonName := "a", type := .message 1 },
        { fieldNumber := 2, jsonName := "b", type := .scalar .int32 }],
        by decide, by decide, by decide⟩
    | _ => .withoutFields "Empty"
  enumKeys _ := []
  findHandler _ := none
  typeName _ := ""

/-- The object `{"a":{},"b":5}`: the state of the empty message stays on the stack. -/
theorem not_disciplined_emptyFirst :
    ¬ Disciplined (.ofDocument [] []) (fun _ => none) emptyFirstSchema
      (documentCall emptyFirstSchema (.named 0) [("a", .object []), ("b", .integer 5)]
        (emptyFirstSchema.defaultMessage (.named 0))) := by
  intro h
  obtain ⟨ok, -, hstate⟩ := (h.2 _ (.here rfl)).1
  exact absurd (congrArg List.length hstate) (by decide)

end QtGrpc.Protobuf.Json
