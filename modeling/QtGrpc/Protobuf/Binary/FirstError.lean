import QtGrpc.Protobuf.Binary.WireTypes

/-!
# The first error

An error is kept in the serializer, while a call of the decoder only reports success or failure.
`nextFieldIndex` ends a message in the same way whether it is complete or not, so that the loop of
the enclosing message can go on after an error and decode further fields.
-/

namespace QtGrpc.Protobuf

/-- The states the decoder passes in a call of the loop. -/
inductive LoopCall.Passes {σ : Type} (b : Format σ) (S : Schema) (c : LoopCall σ) : σ → Prop where
  | called : Passes b S c c.state
  | searched : Passes b S c (b.nextFieldIndex c.fuel c.type c.state c.message).1
  | decoded {x : Iteration σ} (h : c.iteration b S = some x) : Passes b S c (x.result b S).state
  | returned : Passes b S c (c.result b S).1

namespace Binary

variable (env : Environment) (S : Schema)

/-- The same error, and no field visited in between. -/
structure Deserializer.SameError (d d' : Deserializer) : Prop where
  lastError : d'.lastError = d.lastError
  lastErrorString : d'.lastErrorString = d.lastErrorString
  visits : d'.visits = d.visits

/-- Once an error is recorded in a decoding, it is the one that is reported, no header of a further
field is decoded, and no call of the loop finds or keeps another field. -/
structure FirstErrorWins (s : Serializer) (fuel : Nat) (t : MessageType) (data : Bytes) :
    Prop where
  reported : ∀ c d, s.Enters env S fuel t data c → c.Passes (format env S) S d → d.hasError →
    d.SameError (s.deserialize env S fuel t data).1.deserializer
  stopped : ∀ c, s.Enters env S fuel t data c → c.state.hasError →
    c.iteration (format env S) S = none ∧
      (nextFieldIndex env S c.fuel c.type c.state c.message).2.1 = c.message

/-- Behind an error the loop does not go on: the frame has come to its end, or its rest fails at a
header once more. -/
def Deserializer.Rests (d : Deserializer) : Prop :=
  ¬d.inFrame ∨ (decodeHeader env d.it).2 = none ∧
    d = d.setError .invalidHeader "Message received doesn't contain valid header byte."

/-- An iterator that has left the container was reported. -/
def Deserializer.OverrunReported (d : Deserializer) : Prop :=
  d.it.isValid = false → d = d.setUnexpectedEndOfStreamError

variable {env S}

namespace Deserializer

/-- A deserializer has the same error as itself. -/
theorem SameError.refl (d : Deserializer) : d.SameError d := ⟨rfl, rfl, rfl⟩

/-- To have the same error is transitive. -/
theorem SameError.trans {d₁ d₂ d₃ : Deserializer} (h : d₁.SameError d₂) (h' : d₂.SameError d₃) :
    d₁.SameError d₃ :=
  ⟨h'.lastError.trans h.lastError, h'.lastErrorString.trans h.lastErrorString,
    h'.visits.trans h.visits⟩

/-- With the same error, one has an error exactly when the other has. -/
theorem SameError.hasError {d d' : Deserializer} (h : d.SameError d') :
    d'.hasError = d.hasError := by
  rw [Deserializer.hasError, h.lastError, Deserializer.hasError]

/-- Within the container nothing has to be reported. -/
theorem OverrunReported.of_isValid {d : Deserializer} (h : d.it.isValid) : d.OverrunReported := by
  intro hinvalid
  rw [h] at hinvalid
  cases hinvalid

/-- A frame is left with its overrun reported. -/
theorem leaveFrame_overrunReported (d : Deserializer) : d.leaveFrame.OverrunReported := by
  unfold leaveFrame
  cases hvalid : d.it.isValid with
  | true => exact .of_isValid hvalid
  | false => exact fun _ => rfl

/-- Ending a message keeps the error, if an iterator outside the container was reported. -/
theorem leaveFrame_sameError {d : Deserializer} (h : d.OverrunReported) :
    d.SameError d.leaveFrame := by
  unfold leaveFrame
  cases hvalid : d.it.isValid with
  | true => exact ⟨rfl, rfl, rfl⟩
  | false =>
    have hreported := h hvalid
    exact ⟨(congrArg Deserializer.lastError hreported).symm,
      (congrArg Deserializer.lastErrorString hreported).symm, rfl⟩

end Deserializer

/-! ## What `nextFieldIndex` reports -/

/-- Whatever it was before, an iterator that has left the container is reported. -/
theorem nextFieldIndex_overrunReported (fuel : Nat) (t : MessageType) {d : Deserializer}
    (m : Message) (h : d.OverrunReported) :
    (nextFieldIndex env S fuel t d m).1.OverrunReported ∧
      ∀ i, (nextFieldIndex env S fuel t d m).2.2 = .field i →
        (nextFieldIndex env S fuel t d m).1.it.isValid := by
  induction fuel generalizing d m with
  | zero => exact ⟨h, by simp [nextFieldIndex]⟩
  | succ fuel ih =>
    have hstep := nextFieldIndex_step env S fuel t d m
    generalize nextFieldIndex env S (fuel + 1) t d m = r at hstep ⊢
    have hvalid {it : Iterator} {header : Option (Nat × WireType)} (hframe : d.inFrame)
        (hheader : decodeHeader env d.it = (it, header)) : it.isValid := by
      have hread := decodeHeader_reads env d.it
      rw [hheader] at hread
      exact hread.isValid hframe.1
    cases hstep with
    | ended hframe => exact ⟨d.leaveFrame_overrunReported, by simp⟩
    | badHeader it hframe hheader => exact ⟨.of_isValid (hvalid hframe hheader), by simp⟩
    | stuck it n w hframe hheader => exact ⟨.of_isValid (hvalid hframe hheader), by simp⟩
    | overrun => exact ⟨fun _ => rfl, by simp⟩
    | backwards it it' n w hframe hheader hindex hskip hinside =>
      exact ⟨.of_isValid hinside, by simp⟩
    | skipped it it' n w m' hframe hheader hindex hskip hinside =>
      exact ih m' (.of_isValid hinside)
    | noField it n w i hframe hheader =>
      exact ⟨.of_isValid (hvalid hframe hheader), fun _ _ => hvalid hframe hheader⟩
    | known it n w i f hframe hheader =>
      have hread := (enterField_consumes env f i (d.visit t it n w)).1
      have hinside := hread.isValid (hvalid hframe hheader)
      exact ⟨.of_isValid hinside, fun _ _ => hinside⟩

/-- Where entering a field sets the error, the message is finished. -/
theorem enterField_finished (f : FieldInfo) (i : Nat) {d : Deserializer} (h : d.hasError = false)
    (herror : (enterField env f i d).1.hasError) : (enterField env f i d).2 = .finished := by
  have hkept {d' : Deserializer} (hsame : d'.hasError = d.hasError) : d'.hasError = true → False := by
    rw [hsame, h]
    exact Bool.noConfusion
  unfold enterField at herror ⊢
  split
  · rename_i hmessage
    simp only [hmessage, if_true] at herror
    split
    · rfl
    · rename_i it length hvarint
      simp only [hvarint] at herror ⊢
      split
      · rfl
      · rename_i hinside
        rw [if_neg hinside] at herror
        exact (hkept rfl herror).elim
  · rename_i hmessage
    rw [if_neg hmessage] at herror
    exact (hkept rfl herror).elim

/-- A new error ends the message. -/
theorem finished_of_hasError (fuel : Nat) (t : MessageType) {d : Deserializer} (m : Message)
    (h : d.hasError = false) (herror : (nextFieldIndex env S fuel t d m).1.hasError) :
    (nextFieldIndex env S fuel t d m).2.2 = .finished := by
  have hkept {d' : Deserializer} (hsame : d'.hasError = d.hasError) : d'.hasError = true → False := by
    rw [hsame, h]
    exact Bool.noConfusion
  induction fuel generalizing d m with
  | zero => exact (hkept rfl herror).elim
  | succ fuel ih =>
    have hstep := nextFieldIndex_step env S fuel t d m
    generalize nextFieldIndex env S (fuel + 1) t d m = r at hstep herror ⊢
    cases hstep with
    | ended => rfl
    | badHeader => rfl
    | stuck => exact (hkept rfl herror).elim
    | overrun => rfl
    | backwards => rfl
    | skipped it it' n w m' => exact ih m' h herror hkept
    | noField => exact (hkept rfl herror).elim
    | known it n w i f => exact enterField_finished f i h herror

/-! ## What a call reports -/

/-- A field is found with the iterator in the container. -/
theorem isValid_of_iteration {c : LoopCall Deserializer} {x : Iteration Deserializer}
    (hreported : c.state.OverrunReported) (hx : c.iteration (format env S) S = some x) :
    x.state.it.isValid := by
  obtain ⟨-, m, hnext, -⟩ := LoopCall.iteration_eq_some hx
  have hnext : nextFieldIndex env S (x.fuel + 1) c.type c.state c.message =
      (x.state, m, .field x.index) := hnext
  have hfound := (@nextFieldIndex_overrunReported env S (x.fuel + 1) c.type _ c.message
    hreported).2 x.index
  rw [hnext] at hfound
  exact hfound rfl

/-- The message of a field is called for with the iterator in the container. -/
theorem isValid_of_messageField {x : Iteration Deserializer} (hvalid : x.state.it.isValid)
    {t : MessageType} {d : Deserializer} {m : Message}
    (hcall : x.messageField (format env S) S = some (t, d, m)) : d.it.isValid := by
  cases x.calls (b := format env S) (S := S) with
  | message t' m' hmessage =>
    rw [hcall] at hmessage
    cases hmessage
    exact hvalid
  | enum v hf hnone => simp [hnone] at hcall
  | handler hhandler =>
    rw [(Iteration.handlerField_eq_some (hhandler.symm.trans hcall)).1]
    exact (deserializeScalarField_consumes env S x.field x.state _).reads.isValid hvalid

/-- Behind a field an iterator outside the container was reported, if nested messages report it. -/
theorem overrunReported_of_iteration {x : Iteration Deserializer} (hvalid : x.state.it.isValid)
    (hnested : ∀ t d m, d.it.isValid → x.messageField (format env S) S = some (t, d, m) →
      (deserializeMessageField (format env S) S x.fuel t d m).1.OverrunReported) :
    (x.result (format env S) S).state.OverrunReported := by
  cases hcall : x.messageField (format env S) S with
  | some call =>
    obtain ⟨t, d, m⟩ := call
    rw [Iteration.state_of_messageField hcall]
    exact hnested t d m (isValid_of_messageField hvalid hcall) hcall
  | none =>
    cases x.calls (b := format env S) (S := S) with
    | message t m hmessage => simp [hcall] at hmessage
    | enum v hf hnone hstate =>
      have hread := (deserializeEnum_consumes env x.field x.state v).reads.isValid hvalid
      rcases hstate with hstate | ⟨error, text, hstate⟩
      · rw [hstate]
        exact .of_isValid hread
      · rw [hstate]
        exact .of_isValid hread
    | handler hhandler hresult =>
      have hread := (deserializeScalarField_consumes env S x.field x.state
        x.cache.propertyValue).reads.isValid hvalid
      have hnone := Iteration.handlerField_eq_none (hhandler.symm.trans hcall)
        (deserializeMessageField (format env S) S x.fuel)
      rw [hresult]
      rcases hnone with ⟨-, hstate⟩ | ⟨-, -, error, text, hstate⟩
      · rw [hstate]
        exact .of_isValid hread
      · rw [hstate]
        exact .of_isValid hread

/-- Without a field, the state behind a call is that behind `nextFieldIndex`, or behind the check for
required fields. -/
theorem result_state_of_no_iteration {c : LoopCall Deserializer} (hc : c.Formed S) {fuel : Nat}
    (hfuel : c.fuel = fuel + 1) (hx : c.iteration (format env S) S = none) :
    let d := (nextFieldIndex env S (fuel + 1) c.type c.state c.message).1
    (c.result (format env S) S).1 = d ∨
      (c.result (format env S) S).1 =
        (checkRequiredFields (format env S) S c.type c.seen d).1 := by
  have hmember := @nextFieldIndex_member env S (fuel + 1) c.type c.state c.message
  have hfound : (format env S).nextFieldIndex (fuel + 1) c.type c.state c.message =
      nextFieldIndex env S (fuel + 1) c.type c.state c.message := rfl
  have hfield := @exists_iteration env S c hc fuel
  rw [LoopCall.result, hfuel, deserializeLoop_succ, hfound]
  generalize nextFieldIndex env S (fuel + 1) c.type c.state c.message = r at hmember hfield ⊢
  obtain ⟨d, m, next⟩ := r
  cases next with
  | outOfFuel => exact .inl rfl
  | finished =>
    obtain ⟨cache', m', hstore, -⟩ := storeCachedValue_spec (hc.of_member_eq hmember)
    simp only [finishMessage, hstore]
    exact .inr trivial
  | field i =>
    cases hf : (S.propertyOrdering c.type).fields[i]? with
    | none => exact .inl (by simp only [hf])
    | some f => exact absurd hx (hfield hfuel rfl hf)

/-- A pending error is not replaced by one of a missing field. -/
theorem checkRequiredFields_of_hasError {t : MessageType} {seen : List Nat} {d : Deserializer}
    (h : d.hasError) : (checkRequiredFields (format env S) S t seen d).1 = d := by
  have herror : (format env S).hasError d = true := h
  simp [checkRequiredFields, herror]

/-- Checking the required fields keeps the overrun reported. -/
theorem checkRequiredFields_overrunReported {t : MessageType} {seen : List Nat} {d : Deserializer}
    (h : d.OverrunReported) :
    (checkRequiredFields (format env S) S t seen d).1.OverrunReported := by
  by_cases herror : d.hasError
  · rw [checkRequiredFields_of_hasError herror]
    exact h
  · have hvalid : d.it.isValid := by
      by_contra hinvalid
      have hreported := h (by simpa using hinvalid)
      exact herror (by rw [hreported]; rfl)
    unfold checkRequiredFields
    split
    · exact h
    · simp only
      split
      · exact h
      · exact .of_isValid hvalid

/-- A decoding that reports an iterator outside the container finds messages well formed. -/
structure Ready (S : Schema) (c : LoopCall Deserializer) : Prop where
  formed : c.Formed S
  overrunReported : c.state.OverrunReported

variable {c : LoopCall Deserializer}

/-- A nested message is decoded from a well-formed one. -/
theorem Ready.messageField (h : Ready S c) {x : Iteration Deserializer}
    (hx : c.iteration (format env S) S = some x) {t : MessageType} {d : Deserializer} {m : Message}
    (hcall : x.messageField (format env S) S = some (t, d, m)) :
    Ready S { fuel := x.fuel, type := t, state := d, message := m } :=
  ⟨.stored rfl ((h.formed.iteration format_typed hx).messageField hcall),
    .of_isValid (isValid_of_messageField (isValid_of_iteration h.overrunReported hx) hcall)⟩

/-- Behind a call an iterator outside the container was reported. -/
theorem Ready.result (h : Ready S c) : (c.result (format env S) S).1.OverrunReported := by
  induction hfuel : c.fuel using Nat.strong_induction_on generalizing c with
  | _ fuel ih =>
    cases hx : c.iteration (format env S) S with
    | none =>
      cases fuel with
      | zero =>
        rw [LoopCall.result, hfuel]
        exact h.overrunReported
      | succ fuel =>
        have hfound := (@nextFieldIndex_overrunReported env S (fuel + 1) c.type _ c.message
          h.overrunReported).1
        rcases result_state_of_no_iteration h.formed hfuel hx with hresult | hresult
        · rw [hresult]
          exact hfound
        · rw [hresult]
          exact checkRequiredFields_overrunReported hfound
    | some x =>
      have hless : x.fuel < fuel := by
        have hsucc := (LoopCall.iteration_eq_some hx).1
        omega
      have hfield := overrunReported_of_iteration (isValid_of_iteration h.overrunReported hx)
        fun t d m _ hcall => ih x.fuel hless (h.messageField hx hcall) rfl
      cases hstop : (x.result (format env S) S).stop with
      | some outcome =>
        rw [LoopCall.result_of_iteration hx, hstop]
        exact hfield
      | none =>
        have hformed := (h.formed.iteration format_typed hx).result format_typed
          (LoopCall.nestedFormed format_typed x.fuel) hstop
        rw [LoopCall.result_of_iteration hx, hstop]
        exact ih x.fuel hless (c := ⟨x.fuel, c.type, x.index :: c.seen,
          (x.result (format env S) S).cache, (x.result (format env S) S).state,
          (x.result (format env S) S).message⟩) ⟨hformed, hfield⟩ rfl

/-- The next turn is ready as well. -/
theorem Ready.next (h : Ready S c) {c' : LoopCall Deserializer}
    (hnext : c.next (format env S) S = some c') : Ready S c' := by
  refine ⟨h.formed.next format_typed hnext, ?_⟩
  obtain ⟨x, hx, -, rfl⟩ := LoopCall.next_eq_some hnext
  exact overrunReported_of_iteration (isValid_of_iteration h.overrunReported hx)
    fun t d m _ hcall => (h.messageField hx hcall).result

/-- A nested loop is ready as well. -/
theorem Ready.nested (h : Ready S c) {d : LoopCall Deserializer}
    (hnested : c.nested (format env S) S = some d) : Ready S d := by
  obtain ⟨x, hx, hcall, -, hd⟩ := LoopCall.nested_eq_some hnested
  rw [hd]
  exact h.messageField hx hcall

/-- Every loop call that is entered from a ready one is ready. -/
theorem Ready.enters (h : Ready S c) {e : LoopCall Deserializer}
    (he : LoopCall.Enters (format env S) S c e) : Ready S e :=
  he.keeps (fun _ _ hready hnext => hready.next hnext)
    (fun _ _ hready hnested => hready.nested hnested) h

/-! ## Behind an error -/

/-- Where the decoder rests, the search for a field changes neither the error nor the message. -/
theorem nextFieldIndex_of_rests (fuel : Nat) (t : MessageType) {d : Deserializer} (m : Message)
    (hreported : d.OverrunReported) (h : d.Rests env) :
    d.SameError (nextFieldIndex env S (fuel + 1) t d m).1 ∧
      (nextFieldIndex env S (fuel + 1) t d m).2 = (m, .finished) := by
  have hstep := nextFieldIndex_step env S fuel t d m
  generalize nextFieldIndex env S (fuel + 1) t d m = r at hstep ⊢
  have hdecoded {it : Iterator} {header : Nat × WireType} (hframe : d.inFrame)
      (hheader : decodeHeader env d.it = (it, some header)) : False := by
    rcases h with hclosed | ⟨hnone, -⟩
    · exact hclosed hframe
    · rw [hheader] at hnone
      cases hnone
  cases hstep with
  | ended hclosed => exact ⟨Deserializer.leaveFrame_sameError hreported, rfl⟩
  | badHeader it hframe hheader =>
    rcases h with hclosed | ⟨-, hsame⟩
    · exact (hclosed hframe).elim
    · exact ⟨⟨(congrArg Deserializer.lastError hsame).symm,
        (congrArg Deserializer.lastErrorString hsame).symm, rfl⟩, rfl⟩
  | stuck it n w hframe hheader => exact (hdecoded hframe hheader).elim
  | overrun it it' n w hframe hheader => exact (hdecoded hframe hheader).elim
  | backwards it it' n w hframe hheader => exact (hdecoded hframe hheader).elim
  | skipped it it' n w m' hframe hheader => exact (hdecoded hframe hheader).elim
  | noField it n w i hframe hheader => exact (hdecoded hframe hheader).elim
  | known it n w i f hframe hheader => exact (hdecoded hframe hheader).elim

/-- Where no field is left, there is no further turn. -/
theorem iteration_of_finished {fuel : Nat} (hfuel : c.fuel = fuel + 1)
    (hnext : (nextFieldIndex env S (fuel + 1) c.type c.state c.message).2.2 = .finished) :
    c.iteration (format env S) S = none := by
  have hfound : (format env S).nextFieldIndex (fuel + 1) c.type c.state c.message =
      nextFieldIndex env S (fuel + 1) c.type c.state c.message := rfl
  unfold LoopCall.iteration
  simp only [hfuel, hfound]
  generalize nextFieldIndex env S (fuel + 1) c.type c.state c.message = r at hnext ⊢
  obtain ⟨d, m, next⟩ := r
  obtain rfl : next = .finished := hnext
  rfl

/-- A message whose end was found with an error ends with this error. -/
theorem Ready.result_of_finished (h : Ready S c) {fuel : Nat} (hfuel : c.fuel = fuel + 1)
    (hnext : (nextFieldIndex env S (fuel + 1) c.type c.state c.message).2.2 = .finished)
    (herror : (nextFieldIndex env S (fuel + 1) c.type c.state c.message).1.hasError) :
    (c.result (format env S) S).1 =
      (nextFieldIndex env S (fuel + 1) c.type c.state c.message).1 := by
  rcases result_state_of_no_iteration h.formed hfuel (iteration_of_finished hfuel hnext) with
    hresult | hresult
  · exact hresult
  · rw [hresult, checkRequiredFields_of_hasError herror]

/-- What a call does in which the decoder rests. -/
structure Silent (env : Environment) (S : Schema) (c : LoopCall Deserializer) : Prop where
  iteration : c.iteration (format env S) S = none
  message : (nextFieldIndex env S c.fuel c.type c.state c.message).2.1 = c.message
  searched : c.state.SameError (nextFieldIndex env S c.fuel c.type c.state c.message).1
  result : c.state.SameError (c.result (format env S) S).1

/-- A call with an error, in which the decoder rests, is silent. -/
theorem Ready.silent (h : Ready S c) (herror : c.state.hasError)
    (hrests : c.fuel ≠ 0 → c.state.Rests env) : Silent env S c := by
  cases hfuel : c.fuel with
  | zero =>
    refine ⟨by simp only [LoopCall.iteration, hfuel], by rw [hfuel]; rfl, by rw [hfuel]; exact .refl _, ?_⟩
    rw [LoopCall.result, hfuel]
    exact .refl _
  | succ fuel =>
    obtain ⟨hsame, hnext⟩ := @nextFieldIndex_of_rests env S fuel c.type _ c.message
      h.overrunReported (hrests (by omega))
    have hfinished := congrArg Prod.snd hnext
    have hsearched := h.result_of_finished hfuel hfinished (by rw [hsame.hasError]; exact herror)
    refine ⟨iteration_of_finished hfuel hfinished, ?_, ?_, ?_⟩
    · rw [hfuel]
      exact congrArg Prod.fst hnext
    · rw [hfuel]
      exact hsame
    · rw [hsearched]
      exact hsame

/-- Where the decoder rests behind every error, a run ends with the first one. -/
theorem Ready.passes (h : Ready S c)
    (hrests : ∀ e, LoopCall.Enters (format env S) S c e → e.fuel ≠ 0 → e.state.hasError →
      e.state.Rests env) {e : LoopCall Deserializer}
    (he : LoopCall.Enters (format env S) S c e) {d : Deserializer}
    (hd : e.Passes (format env S) S d) (herror : d.hasError) :
    d.SameError (c.result (format env S) S).1 := by
  have hdecoded {c : LoopCall Deserializer} (h : Ready S c)
      (hrests : ∀ e, LoopCall.Enters (format env S) S c e → e.fuel ≠ 0 → e.state.hasError →
        e.state.Rests env) {x : Iteration Deserializer} (hx : c.iteration (format env S) S = some x)
      (herror : (x.result (format env S) S).state.hasError) :
      (x.result (format env S) S).state.SameError (c.result (format env S) S).1 := by
    cases hstop : (x.result (format env S) S).stop with
    | some outcome =>
      rw [LoopCall.result_of_iteration hx, hstop]
      exact .refl _
    | none =>
      obtain ⟨c', hnext⟩ : ∃ c', c.next (format env S) S = some c' := by
        simp [LoopCall.next, hx, hstop]
      have hready := h.next hnext
      have hrest := hrests c' (.next hnext (.refl _))
      rw [LoopCall.result_of_next hnext]
      obtain ⟨x', hx', -, rfl⟩ := LoopCall.next_eq_some hnext
      rw [hx] at hx'
      cases hx'
      exact (hready.silent herror fun hfuel => hrest hfuel herror).result
  induction he with
  | refl c =>
    cases hd with
    | called =>
      exact (h.silent herror fun hfuel => hrests c (.refl c) hfuel herror).result
    | searched =>
      by_cases hbefore : c.state.hasError
      · have hsilent := h.silent hbefore fun hfuel => hrests c (.refl c) hfuel hbefore
        exact ⟨hsilent.result.lastError.trans hsilent.searched.lastError.symm,
          hsilent.result.lastErrorString.trans hsilent.searched.lastErrorString.symm,
          hsilent.result.visits.trans hsilent.searched.visits.symm⟩
      · cases hfuel : c.fuel with
        | zero =>
          rw [hfuel] at herror
          exact absurd herror hbefore
        | succ fuel =>
          have herror : (nextFieldIndex env S (fuel + 1) c.type c.state c.message).1.hasError := by
            rw [← hfuel]
            exact herror
          have hfinished := finished_of_hasError _ _ _ (by simpa using hbefore) herror
          rw [h.result_of_finished hfuel hfinished herror]
          exact .refl _
    | decoded hx => exact hdecoded h hrests hx herror
    | returned => exact .refl _
  | next hnext he ih =>
    rw [LoopCall.result_of_next hnext]
    exact ih (h.next hnext) (fun e' he' => hrests e' (.next hnext he')) hd
  | nested hnested he ih =>
    have hsame := ih (h.nested hnested) (fun e' he' => hrests e' (.nested hnested he')) hd
    obtain ⟨x, hx, hstate⟩ := LoopCall.state_of_nested hnested
    rw [← hstate] at hsame
    exact hsame.trans (hdecoded h hrests hx (by rw [hsame.hasError]; exact herror))

/-- A header that is decoded is recorded. -/
theorem visits_of_header (fuel : Nat) (t : MessageType) {d : Deserializer} (m : Message)
    (h : d.inFrame) (hheader : (decodeHeader env d.it).2 ≠ none) :
    (nextFieldIndex env S (fuel + 1) t d m).1.visits ≠ d.visits := by
  have hstep := nextFieldIndex_step env S fuel t d m
  generalize nextFieldIndex env S (fuel + 1) t d m = r at hstep ⊢
  cases hstep with
  | ended hclosed => exact absurd h hclosed
  | badHeader it hframe hnone =>
    rw [hnone] at hheader
    exact absurd rfl hheader
  | stuck => simp [Deserializer.visit]
  | overrun => simp [Deserializer.visit]
  | backwards => simp [Deserializer.visit]
  | skipped it it' n w m' =>
    obtain ⟨-, new, hvisits⟩ :=
      nextFieldIndex_extends env S fuel t { d.visit t it n w with it := it' } m'
    rw [hvisits]
    simp [Deserializer.visit]
  | noField => simp [Deserializer.visit]
  | known it n w i f =>
    rw [(enterField_consumes env f i (d.visit t it n w)).2.1]
    simp [Deserializer.visit]

/-- Setting the error that is there changes nothing. -/
theorem Deserializer.eq_setError {d : Deserializer} {error : SerializerError} {text : String}
    (herror : d.lastError = error) (htext : d.lastErrorString = text) :
    d = d.setError error text := by
  rw [← herror, ← htext]
  rfl

/-- Where a bad header behind an error leaves no trace, the error was one of a bad header. -/
theorem rests_of_sameError {fuel : Nat} {t : MessageType} {d d' : Deserializer} {m : Message}
    (h : d.SameError d') (hnext : (nextFieldIndex env S (fuel + 1) t d m).1.SameError d') :
    d.Rests env := by
  by_cases hframe : d.inFrame
  · by_cases hheader : (decodeHeader env d.it).2 = none
    · refine .inr ⟨hheader, ?_⟩
      rw [nextFieldIndex, if_pos (by simpa [Deserializer.inFrame] using hframe)] at hnext
      generalize decodeHeader env d.it = r at hheader hnext
      obtain ⟨it, header⟩ := r
      obtain rfl : header = none := hheader
      exact Deserializer.eq_setError (h.lastError.symm.trans hnext.lastError)
        (h.lastErrorString.symm.trans hnext.lastErrorString)
    · exact absurd (hnext.visits.symm.trans h.visits) (visits_of_header fuel t m hframe hheader)
  · exact .inl hframe

/-- The call with which a decoding starts. -/
def Serializer.outermost (S : Schema) (s : Serializer) (fuel : Nat) (t : MessageType)
    (data : Bytes) : LoopCall Deserializer where
  fuel
  type := t
  state := started s.deserializer data
  message := S.defaultMessage t

/-- The error a serializer reports is the one behind the outermost call. -/
theorem deserialize_sameError (s : Serializer) (fuel : Nat) (t : MessageType) {data : Bytes}
    (hsize : data.length ≤ s.effectiveMaximumInputSize) :
    ((s.outermost S fuel t data).result (format env S) S).1.SameError
      (s.deserialize env S fuel t data).1.deserializer := by
  simp only [Serializer.deserialize, if_neg (Nat.not_lt.mpr hsize), deserializeMessage,
    LoopCall.result, Serializer.outermost]
  generalize deserializeLoop (format env S) S fuel t [] {} (Serializer.started s.deserializer data)
    (S.defaultMessage t) = r
  obtain ⟨d, m, outcome⟩ := r
  cases outcome with
  | outOfFuel => exact .refl d
  | returned ok => exact ⟨rfl, rfl, rfl⟩

/-- The first error wins in a decoding if and only if the decoder rests whenever its loop goes on
behind an error. -/
theorem firstErrorWins_iff (env : Environment) (S : Schema) (s : Serializer) (fuel : Nat)
    (t : MessageType) (data : Bytes) :
    FirstErrorWins env S s fuel t data ↔
      ∀ c, s.Enters env S fuel t data c → c.fuel ≠ 0 → c.state.hasError → c.state.Rests env := by
  have hready : Ready S (s.outermost S fuel t data) :=
    ⟨.stored rfl (defaultMessage_wellFormed S t), .of_isValid (Iterator.isValid_fromView data)⟩
  constructor
  · intro h c hc hfuel herror
    obtain ⟨fuel', hfuel'⟩ := Nat.exists_eq_succ_of_ne_zero hfuel
    have hsearched : (nextFieldIndex env S c.fuel c.type c.state c.message).1.hasError :=
      (nextFieldIndex_extends env S c.fuel c.type c.state c.message).1 herror
    have hsame := h.reported c _ hc .searched hsearched
    rw [show (format env S).nextFieldIndex = nextFieldIndex env S from rfl, hfuel'] at hsame
    exact rests_of_sameError (h.reported c c.state hc .called herror) hsame
  · intro h
    constructor
    · intro c d hc hd herror
      exact (hready.passes (fun e he => h e ⟨hc.1, he⟩) hc.2 hd herror).trans
        (deserialize_sameError s fuel t hc.1)
    · intro c hc herror
      have hsilent := (hready.enters hc.2).silent herror fun hfuel => h c hc hfuel herror
      exact ⟨hsilent.iteration, hsilent.message⟩

/-- A bad header in a nested message, behind which a field of the enclosing message is decoded from
the rest of the nested one. -/
theorem not_firstErrorWins_nested :
    ¬FirstErrorWins nullTerminated taggedSchema .initial 8 (.named 0)
      [0x12, 0x03, 0x00, 0x08, 0x01] := by
  intro h
  have hreported := h.reported _ _ ⟨by decide, .nested rfl (.refl _)⟩ .returned (by decide)
  exact absurd hreported.visits (by decide)

end Binary

end QtGrpc.Protobuf
