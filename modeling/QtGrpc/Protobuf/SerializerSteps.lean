import QtGrpc.Protobuf.SerializerBase
import Mathlib.Data.Option.Basic

/-!
# Two encoders side by side

The loop of the encoders only calls the virtual functions of its format. Two formats whose
functions keep a relation between their states are related at the end of every message.
-/

namespace QtGrpc.Protobuf

variable {σ σ' : Type}

/-- The virtual functions of two formats keep a relation between their states. -/
structure SerializerFormat.Related (b : SerializerFormat σ) (b' : SerializerFormat σ')
    (R : σ → σ' → Prop) : Prop where
  serializeEnum : ∀ f v s s', R s s' → R (b.serializeEnum f v s).1 (b'.serializeEnum f v s').1
  serializeScalarField : ∀ f v s s', R s s' →
    R (b.serializeScalarField f v s).1 (b'.serializeScalarField f v s').1
  isScalar : ∀ f v s s', R s s' →
    (b.serializeScalarField f v s).2 = (b'.serializeScalarField f v s').2
  serializeMessageFieldBegin : ∀ s s', R s s' →
    R (b.serializeMessageFieldBegin s) (b'.serializeMessageFieldBegin s')
  serializeMessageFieldEnd : ∀ m f s s', R s s' →
    R (b.serializeMessageFieldEnd m f s) (b'.serializeMessageFieldEnd m f s')
  interceptMessageField : ∀ t m f s s', R s s' →
    Option.Rel R (b.interceptMessageField t m f s) (b'.interceptMessageField t m f s')

/-- Two encoders in related states, within the same default messages. -/
structure SerializerBase.Alike (R : σ → σ' → Prop) (x : SerializerBase σ) (y : SerializerBase σ') :
    Prop where
  state : R x.state y.state
  defaultMessageTypes : x.defaultMessageTypes = y.defaultMessageTypes

variable {R : σ → σ' → Prop}

open SerializerBase

/-- Related results are passed on by functions that relate their results. -/
theorem bind_related {α β α' β' : Type} {Q : α → α' → Prop} {P : β → β' → Prop} {o : Option α}
    {o' : Option α'} (h : Option.Rel Q o o') {g : α → Option β} {g' : α' → Option β'}
    (hg : ∀ a a', Q a a' → Option.Rel P (g a) (g' a')) : Option.Rel P (o.bind g) (o'.bind g') := by
  cases h with
  | none => exact .none
  | some hq => exact hg _ _ hq

/-- Related results are still related when something is made of them. -/
theorem map_related {α β α' β' : Type} {Q : α → α' → Prop} {P : β → β' → Prop} {o : Option α}
    {o' : Option α'} (h : Option.Rel Q o o') {g : α → β} {g' : α' → β'}
    (hg : ∀ a a', Q a a' → P (g a) (g' a')) : Option.Rel P (o.map g) (o'.map g') := by
  cases h with
  | none => exact .none
  | some hq => exact .some (hg _ _ hq)

/-- What one pair of writes relates, two loops of them relate. -/
theorem foldlM_related {α : Type} {Q : σ → σ' → Prop} {write : σ → α → Option σ}
    {write' : σ' → α → Option σ'}
    (hwrite : ∀ a x x', Q x x' → Option.Rel Q (write x a) (write' x' a)) (l : List α)
    {x : σ} {x' : σ'} (h : Q x x') : Option.Rel Q (l.foldlM write x) (l.foldlM write' x') := by
  induction l generalizing x x' with
  | nil => exact .some h
  | cons a l ih =>
    rw [List.foldlM_cons, List.foldlM_cons]
    exact bind_related (hwrite a x x' h) fun _ _ hq => ih hq

/-- The entries of a map are written alike if one of them is. -/
theorem serializeEntries_related
    {write : Message → SerializerBase σ → Option (SerializerBase σ)}
    {write' : Message → SerializerBase σ' → Option (SerializerBase σ')}
    (hwrite : ∀ m x x', Alike R x x' → Option.Rel (Alike R) (write m x) (write' m x'))
    (entries : List (Scalar × Value)) {entry : Message} {x : SerializerBase σ}
    {x' : SerializerBase σ'} (h : Alike R x x') :
    Option.Rel (Alike R) (serializeEntries write entry entries x)
      (serializeEntries write' entry entries x') := by
  induction entries generalizing entry x x' with
  | nil => exact .some h
  | cons e entries ih => exact bind_related (hwrite _ x x' h) fun _ _ hq => ih hq

section

variable {b : SerializerFormat σ} {b' : SerializerFormat σ'} {S : Schema} {order : HashOrder}
  {nested : MessageType → Message → FieldInfo → SerializerBase σ → Option (SerializerBase σ)}
  {nested' : MessageType → Message → FieldInfo → SerializerBase σ' → Option (SerializerBase σ')}

/-- A default message is written alike if messages are. -/
theorem serializeDefaultMessageField_related
    (hnested : ∀ t m f x x', Alike R x x' →
      Option.Rel (Alike R) (nested t m f x) (nested' t m f x')) (t : Nat) (f : FieldInfo)
    {x : SerializerBase σ} {x' : SerializerBase σ'} (h : Alike R x x') :
    Option.Rel (Alike R) (serializeDefaultMessageField S nested t f x)
      (serializeDefaultMessageField S nested' t f x') := by
  unfold serializeDefaultMessageField
  rw [h.defaultMessageTypes]
  split
  · exact .some h
  · have hopen : Alike R
        { x with defaultMessageTypes := x'.defaultMessageTypes ++ [t] }
        { x' with defaultMessageTypes := x'.defaultMessageTypes ++ [t] } := ⟨h.state, rfl⟩
    refine map_related (hnested (.named t) (S.defaultMessage (.named t)) f _ _ hopen) ?_
    intro y y' hy
    exact ⟨hy.state, by rw [hy.defaultMessageTypes]⟩

/-- Every property is written alike if messages are. -/
theorem serializeProperty_related (hb : b.Related b' R)
    (hnested : ∀ t m f x x', Alike R x x' →
      Option.Rel (Alike R) (nested t m f x) (nested' t m f x')) (f : FieldInfo) (value : Value)
    {x : SerializerBase σ} {x' : SerializerBase σ'} (h : Alike R x x') :
    Option.Rel (Alike R) (serializeProperty b S order nested f value x)
      (serializeProperty b' S order nested' f value x') := by
  unfold serializeProperty
  split
  · split
    · exact serializeDefaultMessageField_related hnested _ f h
    · exact .some h
  · exact .some h
  · exact hnested _ _ _ x x' h
  · exact foldlM_related (fun m x x' hx => hnested _ m f x x' hx) _ h
  · exact serializeEntries_related (fun m x x' hx => hnested _ m f x x' hx) _ h
  · rename_i value _ _ _ _ _ _ _
    have hscalar := hb.serializeScalarField f value x.state x'.state h.state
    have hisScalar := hb.isScalar f value x.state x'.state h.state
    split
    · exact .some ⟨hb.serializeEnum f value x.state x'.state h.state, h.defaultMessageTypes⟩
    · generalize b.serializeScalarField f value x.state = r,
        b'.serializeScalarField f value x'.state = r' at hscalar hisScalar ⊢
      obtain ⟨s, ok⟩ := r
      obtain ⟨s', ok'⟩ := r'
      obtain rfl : ok = ok' := hisScalar
      have hboth : Alike R { x with state := s } { x' with state := s' } :=
        ⟨hscalar, h.defaultMessageTypes⟩
      cases ok with
      | true => exact .some hboth
      | false =>
        simp only
        split
        · exact foldlM_related (fun m x x' hx => hnested _ m f x x' hx) _ hboth
        · exact .some hboth

end

/-- What the virtual functions of two formats keep, their loops keep. -/
theorem serializeMessage_related {b : SerializerFormat σ} {b' : SerializerFormat σ'} {S : Schema}
    {order : HashOrder} (hb : b.Related b' R) (fuel : Nat) (t : MessageType) (m : Message)
    {x : SerializerBase σ} {x' : SerializerBase σ'} (h : Alike R x x') :
    Option.Rel (Alike R) (serializeMessage b S order fuel t m x)
      (serializeMessage b' S order fuel t m x') := by
  induction fuel generalizing t m x x' with
  | zero => exact .none
  | succ fuel ih =>
    have hnested : ∀ t m f x x', Alike R x x' →
        Option.Rel (Alike R) (serializeMessageField b (serializeMessage b S order fuel) t m f x)
          (serializeMessageField b' (serializeMessage b' S order fuel) t m f x') := by
      intro t m f x x' hx
      have hintercept := hb.interceptMessageField t m f x.state x'.state hx.state
      unfold serializeMessageField
      generalize b.interceptMessageField t m f x.state = o,
        b'.interceptMessageField t m f x'.state = o' at hintercept
      cases hintercept with
      | some hs => exact .some ⟨hs, hx.defaultMessageTypes⟩
      | none =>
        have hbegin : Alike R { x with state := b.serializeMessageFieldBegin x.state }
            { x' with state := b'.serializeMessageFieldBegin x'.state } :=
          ⟨hb.serializeMessageFieldBegin _ _ hx.state, hx.defaultMessageTypes⟩
        refine map_related (ih t m hbegin) ?_
        intro y y' hy
        exact ⟨hb.serializeMessageFieldEnd _ _ _ _ hy.state, hy.defaultMessageTypes⟩
    rw [serializeMessage, serializeMessage]
    refine foldlM_related ?_ _ h
    intro fi x x' hx
    exact serializeProperty_related hb hnested _ _ hx

end QtGrpc.Protobuf
