import QtGrpc.Protobuf.DeserializerBase

/-!
# Serializers as objects

A decoder is an object that serves one call after the other, and its cache is a member. The
decoding of a nested message puts the cache aside and brings it back. Seen from outside, this is
the loop whose cache belongs to the message that is being decoded.
-/

namespace QtGrpc.Protobuf

/-- `QProtobufDeserializerBase` with the state of its format. -/
structure DeserializerBase (σ : Type) where
  cache : Cache := {}
  state : σ

namespace DeserializerBase

variable {σ : Type} (b : Format σ) (S : Schema)

/-- What is seen of a run from outside: all but the cache that is left behind. -/
def seenOutside (r : DeserializerBase σ × Message × Outcome) : σ × Message × Outcome :=
  (r.1.state, r.2)

/-- `deserializeMessageField`: the cache is put aside while a message is decoded. -/
def deserializeMessageField
    (deserializeMessage : MessageType → DeserializerBase σ → Message →
      DeserializerBase σ × Message × Outcome) (t : MessageType) (x : DeserializerBase σ)
    (m : Message) : DeserializerBase σ × Message × Outcome :=
  match b.interceptMessageField t x.state m with
  | some (s, m, ok) => ({ x with state := s }, m, .returned ok)
  | none =>
    let (y, m, outcome) := deserializeMessage t { x with cache := {} } m
    ({ y with cache := x.cache }, m, outcome)

/-- `deserializeMessage`, with the cache as it is. -/
def deserializeMessage : Nat → MessageType → List Nat → DeserializerBase σ → Message →
    DeserializerBase σ × Message × Outcome
  | 0, _, _, x, m => (x, m, .outOfFuel)
  | fuel + 1, t, seen, x, m =>
    match b.nextFieldIndex (fuel + 1) t x.state m with
    | (s, m, .outOfFuel) => ({ x with state := s }, m, .outOfFuel)
    | (s, m, .finished) =>
      match storeCachedValue S t x.cache m with
      | (cache, m, false) => (⟨cache, failToStore b s⟩, m, .returned false)
      | (cache, m, true) =>
        let (s, ok) := checkRequiredFields b S t seen s
        (⟨cache, s⟩, m, .returned ok)
    | (s, m, .field i) =>
      match (S.propertyOrdering t).fields[i]? with
      | none => ({ x with state := s }, m, .returned false)
      | some f =>
        match selectProperty S t i f x.cache m with
        | (cache, m, false) => (⟨cache, failToStore b s⟩, m, .returned false)
        | (cache, m, true) =>
          let result := deserializeProperty b S
            (fun t s m => seenOutside
              (deserializeMessageField b (fun t y m => deserializeMessage fuel t [] y m) t ⟨cache, s⟩
                m))
            i f cache s m
          match result.stop with
          | some outcome => (⟨result.cache, result.state⟩, result.message, outcome)
          | none =>
            deserializeMessage fuel t (i :: seen) ⟨result.cache, result.state⟩ result.message

variable {b S}

/-- The decoding of a message is the loop entered with the cache that was there. -/
theorem deserializeMessage_eq (fuel : Nat) (t : MessageType) (seen : List Nat)
    (x : DeserializerBase σ) (m : Message) :
    seenOutside (deserializeMessage b S fuel t seen x m) =
      deserializeLoop b S fuel t seen x.cache x.state m := by
  induction fuel generalizing t seen x m with
  | zero => rfl
  | succ fuel ih =>
    have hnested (cache : Cache) : (fun t s m =>
        seenOutside (deserializeMessageField b (fun t y m => deserializeMessage b S fuel t [] y m) t
          ⟨cache, s⟩ m)) = fun t s m =>
        match b.interceptMessageField t s m with
        | some (s, m, ok) => (s, m, .returned ok)
        | none => deserializeLoop b S fuel t [] {} s m := by
      funext t s m
      unfold deserializeMessageField
      cases b.interceptMessageField t s m with
      | some r => rfl
      | none => exact ih t [] ⟨{}, s⟩ m
    rw [deserializeMessage, deserializeLoop]
    rcases b.nextFieldIndex (fuel + 1) t x.state m with ⟨s, m, i | _ | _⟩
    · simp only
      cases (S.propertyOrdering t).fields[i]? with
      | none => rfl
      | some f =>
        simp only
        rcases selectProperty S t i f x.cache m with ⟨cache, m, _ | _⟩
        · rfl
        · simp only [hnested cache]
          generalize deserializeProperty b S _ i f cache s m = result
          cases result.stop with
          | some outcome => rfl
          | none => exact ih t (i :: seen) ⟨result.cache, result.state⟩ result.message
    · simp only [finishMessage]
      rcases storeCachedValue S t x.cache m with ⟨cache, m, _ | _⟩
      · rfl
      · rfl
    · rfl

end DeserializerBase

/-- A call of a serializer. A message that is decoded into is wiped first. -/
inductive SerializerCall where
  | serialize (t : MessageType) (m : Message)
  | deserialize (t : MessageType) (data : Bytes)

/-- What a call that returned lets its caller see: the result, the decoded message, and
`lastError` and `lastErrorString` behind it. -/
inductive Reply where
  | serialized (data : Bytes) (lastError : SerializerError) (lastErrorString : String)
  | deserialized (ok : Bool) (m : Message) (lastError : SerializerError) (lastErrorString : String)

end QtGrpc.Protobuf
