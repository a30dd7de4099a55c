import QtGrpc.Protobuf.Calls
import QtGrpc.Protobuf.Shape

/-!
# Well-formed messages in a running decoder

A format whose functions read values of the type of the property they are given keeps every message
of a run well formed, except for the property in the cache. So every entry of the loop, for the
outermost message or for a nested one, finds a property of the type of its field.
-/

namespace QtGrpc.Protobuf

variable {σ : Type} {b : Format σ} {S : Schema}

/-- What the functions of a format read is of the type of the property they were given. -/
structure Format.Typed (b : Format σ) (S : Schema) : Prop where
  nextFieldIndex : ∀ fuel t s m, (b.nextFieldIndex fuel t s m).2.1.member = m.member
  deserializeEnum : ∀ f s v, f.type.isEnum → v.Suits f.type →
    (b.deserializeEnum f s v).2.2 = true → (b.deserializeEnum f s v).2.1.Suits f.type
  deserializeScalarField : ∀ f s v, v.Suits f.type →
    ((b.deserializeScalarField f s v).2.2 = true →
      (b.deserializeScalarField f s v).2.1.isNull = false) →
        (b.deserializeScalarField f s v).2.1.Suits f.type
  interceptMessageField : ∀ t s m s' m', WellFormed S t m →
    b.interceptMessageField t s m = some (s', m', true) → WellFormed S t m'

theorem Message.member_writeThrough_of_ne (m : Message) {i : Nat} {f : FieldInfo} (v : Value)
    {y : Member} (hy : y ≠ f.memberAt i) : (m.writeThrough i f v).member y = m.member y := by
  unfold Message.writeThrough
  unfold FieldInfo.memberAt at hy
  split <;> simp_all

namespace LoopCall

/-- Between two fields of a call the message is well formed, but for the property in the cache. -/
def Formed (S : Schema) (c : LoopCall σ) : Prop := Pending S c.type c.cache c.message

/-- The calls of a run from one of its calls on, for the same message or a nested one. -/
inductive Enters (b : Format σ) (S : Schema) : LoopCall σ → LoopCall σ → Prop where
  | refl (c : LoopCall σ) : Enters b S c c
  | next {c c' e : LoopCall σ} (h : c.next b S = some c') (he : Enters b S c' e) : Enters b S c e
  | nested {c d e : LoopCall σ} (h : c.nested b S = some d) (he : Enters b S d e) : Enters b S c e

/-- What the next call and a nested one keep, every call of a run has. -/
theorem Enters.keeps {P : LoopCall σ → Prop} (hnext : ∀ c c', P c → c.next b S = some c' → P c')
    (hnested : ∀ c d, P c → c.nested b S = some d → P d) {c e : LoopCall σ}
    (h : Enters b S c e) (hc : P c) : P e := by
  induction h with
  | refl => exact hc
  | next h _ ih => exact ih (hnext _ _ hc h)
  | nested h _ ih => exact ih (hnested _ _ hc h)

/-- The state behind a field is the one behind its message. -/
theorem state_of_nested {c d : LoopCall σ} (h : c.nested b S = some d) :
    ∃ x, c.iteration b S = some x ∧ (x.result b S).state = (d.result b S).1 := by
  obtain ⟨x, hx, hcall, hintercept, hd⟩ := nested_eq_some h
  have hstate := Iteration.state_of_messageField hcall
  simp only [deserializeMessageField, hintercept] at hstate
  refine ⟨x, hx, ?_⟩
  rw [hd]
  exact hstate

/-- What a format stays within, a run stays within behind each of its calls. -/
theorem Enters.within {R : σ → σ → Prop} (hb : b.Within R) {c e : LoopCall σ}
    (h : Enters b S c e) : R (e.result b S).1 (c.result b S).1 := by
  induction h with
  | refl c => exact hb.refl _
  | next hnext _ ih =>
    rw [result_of_next hnext]
    exact ih
  | nested hnested _ ih =>
    refine hb.trans ih ?_
    obtain ⟨x, hx, hstate⟩ := state_of_nested hnested
    rw [result_of_iteration hx, ← hstate]
    split
    · exact hb.refl _
    · exact deserializeLoop_within hb _ _ _ _ _ _

/-- The state in which a nested message is called for is one behind the header of its field. -/
theorem state_of_messageField_within {R : σ → σ → Prop} (hb : b.Within R) {x : Iteration σ}
    {t : MessageType} {s : σ} {m : Message} (h : x.messageField b S = some (t, s, m)) :
    R x.state s := by
  cases x.calls (b := b) (S := S) with
  | message t' m' hcall hstate =>
    obtain ⟨rfl, rfl, rfl⟩ : _ ∧ _ ∧ _ := by simpa using hcall.symm.trans h
    exact hb.refl _
  | enum v hf hcall => simp [hcall] at h
  | handler hcall hresult =>
    rw [(Iteration.handlerField_eq_some (hcall.symm.trans h)).1]
    exact hb.deserializeScalarField _ _ _

/-- What a format stays within, each call of a run is within from the first one on. -/
theorem Enters.state_within {R : σ → σ → Prop} (hb : b.Within R) {c e : LoopCall σ}
    (h : Enters b S c e) : R c.state e.state := by
  have hfound {c : LoopCall σ} {x : Iteration σ} (hx : c.iteration b S = some x) :
      R c.state x.state := by
    obtain ⟨-, m, hnext, -⟩ := iteration_eq_some hx
    have hread := hb.nextFieldIndex (x.fuel + 1) c.type c.state c.message
    rwa [hnext] at hread
  induction h with
  | refl c => exact hb.refl _
  | next hnext _ ih =>
    refine hb.trans ?_ ih
    obtain ⟨x, hx, -, rfl⟩ := next_eq_some hnext
    have hstep := deserializeProperty_step b S (deserializeMessageField b S x.fuel) x.index x.field
      x.cache x.state x.message
    have hnested := deserializeMessageField_within hb x.fuel (S := S) fun t seen cache s m =>
      deserializeLoop_within hb x.fuel t seen cache s m
    exact hb.trans (hfound hx) (hstep.within hb hnested)
  | nested hnested _ ih =>
    refine hb.trans ?_ ih
    obtain ⟨x, hx, hcall, -, -⟩ := nested_eq_some hnested
    exact hb.trans (hfound hx) (state_of_messageField_within hb hcall)

end LoopCall

namespace Iteration

/-- The property of the field is in the cache, and the rest of the message is well formed. -/
structure Formed (S : Schema) (t : MessageType) (x : Iteration σ) : Prop where
  index : x.cache.index = some x.index
  field : (S.propertyOrdering t).fields[x.index]? = some x.field
  property : IsProperty S x.field x.cache.propertyValue
  others : ∀ y ≠ x.field.memberAt x.index, FormedAt S t x.message y

/-- Nested messages are well formed where they were decoded. -/
def NestedFormed (b : Format σ) (S : Schema) (fuel : Nat) : Prop :=
  ∀ t s m, WellFormed S t m → (deserializeMessageField b S fuel t s m).2.2 = .returned true →
    WellFormed S t (deserializeMessageField b S fuel t s m).2.1

variable {t : MessageType} {x : Iteration σ}

/-- A new property of the type of the field goes into the cache. -/
theorem Formed.pending (h : x.Formed S t) {cache : Cache} {m : Message}
    (hindex : cache.index = some x.index) (hproperty : IsProperty S x.field cache.propertyValue)
    (hother : ∀ y ≠ x.field.memberAt x.index, m.member y = x.message.member y) :
    Pending S t cache m :=
  .cached hindex h.field hproperty fun y hy => (h.others y hy).of_eq (hother y hy)

theorem Formed.handler (hb : b.Typed S) (h : x.Formed S t)
    (nested : MessageType → σ → Message → σ × Message × Outcome)
    (hpure : x.field.type.isPureMessage = false)
    (hstop : (deserializeWithHandler b S nested x.field x.cache x.state x.message).stop = none) :
    Pending S t (deserializeWithHandler b S nested x.field x.cache x.state x.message).cache
      (deserializeWithHandler b S nested x.field x.cache x.state x.message).message := by
  have hread := hb.deserializeScalarField x.field x.state x.cache.propertyValue h.property.suits
  unfold deserializeWithHandler at hstop ⊢
  generalize b.deserializeScalarField x.field x.state x.cache.propertyValue = r at hread hstop ⊢
  obtain ⟨s, v, ok⟩ := r
  cases ok with
  | true =>
    cases hnull : v.isNull with
    | true => simp [hnull] at hstop
    | false =>
      have hsuits := hread fun _ => hnull
      exact h.pending h.index (isProperty_of_suits hsuits hpure) fun _ _ => rfl
  | false =>
    have hsuits : v.Suits x.field.type := hread (by simp)
    cases hhandler : S.handlerOf x.field.type with
    | none => simp [hhandler] at hstop
    | some handler =>
      simp only [hhandler] at hstop ⊢
      obtain ⟨k, isList, htype⟩ : ∃ k isList, x.field.type = .custom k isList := by
        unfold Schema.handlerOf at hhandler
        split at hhandler
        · exact ⟨_, _, ‹_›⟩
        · cases hhandler
      rw [htype] at hsuits
      obtain ⟨k', content, rfl⟩ := hsuits
      generalize nested handler.proxy s (S.defaultMessage handler.proxy) = r at hstop ⊢
      obtain ⟨s', object, outcome⟩ := r
      cases outcome with
      | outOfFuel => simp at hstop
      | returned ok =>
        refine h.pending h.index (isProperty_of_suits ?_ hpure) fun _ _ => rfl
        rw [htype]
        exact ⟨_, _, rfl⟩

/-- Behind a field that was decoded only the property in the cache is not written yet. -/
theorem Formed.result (hb : b.Typed S) (h : x.Formed S t) (hnested : NestedFormed b S x.fuel)
    (hstop : (x.result b S).stop = none) :
    Pending S t (x.result b S).cache (x.result b S).message := by
  have hproperty := h.property
  have hsuits := h.property.suits
  unfold Iteration.result at hstop ⊢
  unfold deserializeProperty at hstop ⊢
  split
  case h_1 k k' sub htype hv =>
    rw [htype, hv] at hsuits
    obtain ⟨sub', heq⟩ := hsuits
    cases heq
    have hsub := hnested (.named k) x.state sub (hproperty.sub k sub hv)
    simp only [htype, hv] at hstop
    split at hstop
    · rename_i hreturned
      exact h.pending h.index (isProperty_message htype (hsub hreturned)) fun y hy =>
        Message.member_writeThrough_of_ne _ _ hy
    · cases hstop
  case h_2 k k' ms htype hv =>
    exact h.pending h.index
      (isProperty_of_suits (by rw [htype]; exact ⟨_, _, rfl⟩) (by rw [htype]; rfl)) fun _ _ => rfl
  case h_3 key value entries htype hv =>
    simp only [htype, hv] at hstop ⊢
    split at hstop
    · rename_i hreturned
      rw [if_pos hreturned]
      exact h.pending h.index
        (isProperty_of_suits (by rw [htype]; exact ⟨_, rfl⟩) (by rw [htype]; rfl)) fun _ _ => rfl
    · cases hstop
  case h_4 k htype | h_5 k htype =>
    have hisEnum : x.field.type.isEnum := by simp [PropertyType.isEnum, htype]
    have hread := hb.deserializeEnum x.field x.state x.cache.propertyValue hisEnum hsuits
    simp only [htype] at hstop
    generalize b.deserializeEnum x.field x.state x.cache.propertyValue = r at hread hstop ⊢
    obtain ⟨s, v, ok⟩ := r
    cases ok with
    | true =>
      have hread := hread rfl
      exact h.pending h.index (isProperty_of_suits hread (by rw [htype]; rfl)) fun _ _ => rfl
    | false => simp at hstop
  case h_6 henum henumList hmessage hlist hhash =>
    have hpure : x.field.type.isPureMessage = false := by
      cases htype : x.field.type with
      | message k =>
        rw [htype] at hsuits
        obtain ⟨sub, hv⟩ := hsuits
        exact (hmessage k k sub htype hv).elim
      | _ => rfl
    refine h.handler hb _ hpure ?_
    split at hstop
    · exact (hmessage _ _ _ ‹_› ‹_›).elim
    · exact (hlist _ _ _ ‹_› ‹_›).elim
    · exact (hhash _ _ _ ‹_› ‹_›).elim
    · exact (henum _ ‹_›).elim
    · exact (henumList _ ‹_›).elim
    · exact hstop

/-- A message that a handler is asked for is a new one. -/
theorem handlerField_wellFormed {t' : MessageType} {s : σ} {m : Message}
    (hcall : x.handlerField b S = some (t', s, m)) : WellFormed S t' m := by
  unfold handlerField at hcall
  split at hcall
  · cases hcall
  · obtain ⟨handler, -, heq⟩ := Option.map_eq_some_iff.mp hcall
    cases heq
    exact defaultMessage_wellFormed S _

/-- The message that is decoded for a field is a well-formed one of its type. -/
theorem Formed.messageField (h : x.Formed S t) {t' : MessageType} {s : σ} {m : Message}
    (hcall : x.messageField b S = some (t', s, m)) : WellFormed S t' m := by
  have hsuits := h.property.suits
  unfold Iteration.messageField at hcall
  split at hcall
  · rename_i k k' sub htype hv
    rw [htype, hv] at hsuits
    obtain ⟨sub', heq⟩ := hsuits
    cases heq
    cases hcall
    exact h.property.sub k m hv
  · cases hcall
    exact defaultMessage_wellFormed S _
  · cases hcall
    exact addNext_wellFormed _ _ _
  · cases hcall
  · cases hcall
  · exact handlerField_wellFormed hcall

/-- Behind a field the loop either goes on or returns without success. -/
theorem stop_ne_returned_true (x : Iteration σ) : (x.result b S).stop ≠ some (.returned true) := by
  intro hstop
  have hstep := deserializeProperty_step b S (deserializeMessageField b S x.fuel) x.index x.field
    x.cache x.state x.message
  rw [show (deserializeProperty b S (deserializeMessageField b S x.fuel) x.index x.field
    x.cache x.state x.message).stop = some (.returned true) from hstop] at hstep
  generalize hsome : some (Outcome.returned true) = o at hstep
  generalize (deserializeProperty b S (deserializeMessageField b S x.fuel) x.index x.field
    x.cache x.state x.message).state = s at hstep
  cases hstep with
  | message => split at hsome <;> simp_all
  | enum => cases hsome
  | enumFailed => cases hsome
  | scalar => split at hsome <;> cases hsome
  | noHandler => cases hsome
  | handler => split at hsome <;> cases hsome

end Iteration

namespace LoopCall

variable {c c' d : LoopCall σ} {x : Iteration σ}

/-- A field finds a property of its type. -/
theorem Formed.iteration (hb : b.Typed S) (h : c.Formed S) (hx : c.iteration b S = some x) :
    x.Formed S c.type := by
  obtain ⟨-, m, hnext, hf, hselect⟩ := iteration_eq_some hx
  have hmember := hb.nextFieldIndex (x.fuel + 1) c.type c.state c.message
  rw [hnext] at hmember
  obtain ⟨cache, m', hselect', hindex, hproperty, hothers, -⟩ :=
    selectProperty_spec (h.of_member_eq hmember) hf
  rw [hselect] at hselect'
  cases hselect'
  exact ⟨hindex, hf, hproperty, hothers⟩

/-- Without a field, a message is only decoded if it ends. -/
theorem Formed.result_of_no_iteration (hb : b.Typed S) (h : c.Formed S)
    (hx : c.iteration b S = none) (hresult : (c.result b S).2.2 = .returned true) :
    WellFormed S c.type (c.result b S).2.1 := by
  unfold LoopCall.result at hresult ⊢
  unfold LoopCall.iteration at hx
  cases hfuel : c.fuel with
  | zero =>
    rw [hfuel] at hresult
    cases hresult
  | succ fuel =>
    have hmember := hb.nextFieldIndex (fuel + 1) c.type c.state c.message
    simp only [hfuel, deserializeLoop_succ] at hresult hx ⊢
    generalize b.nextFieldIndex (fuel + 1) c.type c.state c.message = r at hresult hx hmember ⊢
    obtain ⟨s, m, next⟩ := r
    cases next with
    | outOfFuel => cases hresult
    | finished =>
      obtain ⟨cache', m', hstore, -, hformed, -⟩ := storeCachedValue_spec (h.of_member_eq hmember)
      simp only [finishMessage, hstore]
      exact hformed
    | field i =>
      simp only at hresult hx
      cases hf : (S.propertyOrdering c.type).fields[i]? with
      | none => simp [hf] at hresult
      | some f =>
        obtain ⟨cache', m', hselect, -⟩ := selectProperty_spec (h.of_member_eq hmember) hf
        simp [hf, hselect] at hx

/-- A nested message is decoded in a call of its own, unless the format does something else. -/
theorem nestedFormed_of_result (hb : b.Typed S) {fuel : Nat}
    (hresult : ∀ c : LoopCall σ, c.fuel = fuel → c.Formed S →
      (c.result b S).2.2 = .returned true → WellFormed S c.type (c.result b S).2.1) :
    Iteration.NestedFormed b S fuel := by
  intro t s m hm hreturned
  unfold deserializeMessageField at hreturned ⊢
  cases hintercept : b.interceptMessageField t s m with
  | some r =>
    obtain ⟨s', m', ok⟩ := r
    simp only [hintercept, Outcome.returned.injEq] at hreturned
    subst hreturned
    exact hb.interceptMessageField t s m s' m' hm hintercept
  | none =>
    simp only [hintercept] at hreturned
    exact hresult { fuel, type := t, state := s, message := m } rfl (.stored rfl hm) hreturned

/-- A message that was decoded with success is well formed. -/
theorem Formed.result (hb : b.Typed S) (h : c.Formed S)
    (hresult : (c.result b S).2.2 = .returned true) : WellFormed S c.type (c.result b S).2.1 := by
  induction hfuel : c.fuel using Nat.strong_induction_on generalizing c with
  | _ fuel ih =>
    cases hx : c.iteration b S with
    | none => exact h.result_of_no_iteration hb hx hresult
    | some x =>
      have hless : x.fuel < fuel := by
        have hsucc := (iteration_eq_some hx).1
        omega
      cases hstop : (x.result b S).stop with
      | some outcome =>
        rw [result_of_iteration hx, hstop] at hresult
        exact absurd (hstop.trans (congrArg some hresult)) x.stop_ne_returned_true
      | none =>
        have hnested := nestedFormed_of_result hb fun d hd hformed hreturned =>
          ih x.fuel hless hformed hreturned hd
        obtain ⟨c', hnext⟩ : ∃ c', c.next b S = some c' := by
          simp [LoopCall.next, hx, hstop]
        rw [result_of_next hnext] at hresult ⊢
        obtain ⟨x', hx', hstop', rfl⟩ := next_eq_some hnext
        rw [hx] at hx'
        cases hx'
        have hformed := (h.iteration hb hx).result hb hnested hstop
        exact ih x.fuel hless (c := ⟨x.fuel, c.type, x.index :: c.seen, (x.result b S).cache,
          (x.result b S).state, (x.result b S).message⟩) hformed hresult rfl

/-- Nested messages that were decoded with success are well formed. -/
theorem nestedFormed (hb : b.Typed S) (fuel : Nat) : Iteration.NestedFormed b S fuel :=
  nestedFormed_of_result hb fun _ _ hformed hreturned => hformed.result hb hreturned

theorem Formed.next (hb : b.Typed S) (h : c.Formed S) (hnext : c.next b S = some c') :
    c'.Formed S := by
  obtain ⟨x, hx, hstop, rfl⟩ := next_eq_some hnext
  exact (h.iteration hb hx).result hb (nestedFormed hb x.fuel) hstop

/-- The message of a nested call is the property of the field, or a new one. -/
theorem Formed.nested (hb : b.Typed S) (h : c.Formed S) (hnested : c.nested b S = some d) :
    d.Formed S := by
  obtain ⟨x, hx, hcall, -, hd⟩ := nested_eq_some hnested
  rw [hd]
  refine .stored rfl ?_
  exact (h.iteration hb hx).messageField hcall

/-- Every call of a run finds the messages well formed. -/
theorem Formed.enters (hb : b.Typed S) {e : LoopCall σ} (he : Enters b S c e) (h : c.Formed S) :
    e.Formed S :=
  he.keeps (fun _ _ hformed hnext => hformed.next hb hnext)
    (fun _ _ hformed hnested => hformed.nested hb hnested) h

end LoopCall

end QtGrpc.Protobuf
