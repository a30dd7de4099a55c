import QtGrpc.Protobuf.SerializerBase

/-!
# What a message contains

The values that the fields of a message may have, and when two messages have the same ones. Zeros of
different sign are equal for `operator==`; the order of a hash does not count.
-/

namespace QtGrpc.Protobuf

/-! ## Equal scalars -/

/-- Equality of floating-point numbers is symmetric. -/
theorem floatEq_symm {w : Nat} {isNaN : BitVec w → Bool} {a b : BitVec w}
    (h : floatEq isNaN a b = true) : floatEq isNaN b a = true := by
  simp only [floatEq, Bool.and_eq_true, Bool.or_eq_true, decide_eq_true_eq] at h ⊢
  exact ⟨⟨h.1.2, h.1.1⟩, h.2.imp Eq.symm And.symm⟩

/-- Equality of floating-point numbers is transitive; it is not reflexive. -/
theorem floatEq_trans {w : Nat} {isNaN : BitVec w → Bool} {a b c : BitVec w}
    (h : floatEq isNaN a b = true) (h' : floatEq isNaN b c = true) : floatEq isNaN a c = true := by
  simp only [floatEq, Bool.and_eq_true, Bool.or_eq_true, decide_eq_true_eq] at h h' ⊢
  refine ⟨⟨h.1.1, h'.1.2⟩, ?_⟩
  rcases h.2 with rfl | hab
  · exact h'.2
  · rcases h'.2 with rfl | hbc
    · exact .inr hab
    · exact .inr ⟨hab.1, hbc.2⟩

namespace ScalarKind

/-- The comparison of the values of a scalar type is symmetric. -/
theorem isEqual_symm {k : ScalarKind} {a b : k.Carrier} (h : k.isEqual a b = true) :
    k.isEqual b a = true := by
  cases k
  case float => exact floatEq_symm h
  case double => exact floatEq_symm h
  all_goals
    simp only [isEqual, decide_eq_true_eq] at h ⊢
    exact h.symm

/-- The comparison of the values of a scalar type is transitive. -/
theorem isEqual_trans {k : ScalarKind} {a b c : k.Carrier} (h : k.isEqual a b = true)
    (h' : k.isEqual b c = true) : k.isEqual a c = true := by
  cases k
  case float => exact floatEq_trans h h'
  case double => exact floatEq_trans h h'
  all_goals
    simp only [isEqual, decide_eq_true_eq] at h h' ⊢
    exact h.trans h'

/-- The types a map may have for its keys. -/
def isMapKey : ScalarKind → Bool
  | .float | .double | .bytes => false
  | _ => true

/-- The types of map keys have no values that are equal but not the same. -/
theorem eq_of_isEqual {k : ScalarKind} (hk : k.isMapKey = true) {a b : k.Carrier}
    (h : k.isEqual a b = true) : a = b := by
  cases k
  case float | double | bytes => cases hk
  all_goals simpa [isEqual] using h

end ScalarKind

/-- Two scalars that are the same, or equal for `operator==`. -/
def Scalar.Same (a b : Scalar) : Prop := a = b ∨ a.isEqual b = true

namespace Scalar

variable {a b c : Scalar}

/-- Scalars are equal if they have one type and values that it takes for equal. -/
theorem isEqual_iff : a.isEqual b = true ↔ ∃ h : a.1 = b.1, b.1.isEqual (h ▸ a.2) b.2 = true := by
  unfold isEqual
  split
  · rename_i h
    exact ⟨fun heq => ⟨h, heq⟩, fun ⟨_, heq⟩ => heq⟩
  · rename_i h
    exact ⟨fun heq => (by cases heq), fun ⟨h', _⟩ => absurd h' h⟩

/-- A scalar stands for itself. -/
theorem Same.refl (a : Scalar) : a.Same a := .inl rfl

/-- Of two scalars that stand for each other it does not matter which is the first. -/
theorem Same.symm (h : a.Same b) : b.Same a := by
  rcases h with rfl | h
  · exact .inl rfl
  · obtain ⟨k, v⟩ := a
    obtain ⟨k', v'⟩ := b
    obtain ⟨hk, heq⟩ := isEqual_iff.mp h
    obtain rfl : k = k' := hk
    exact .inr (isEqual_iff.mpr ⟨rfl, ScalarKind.isEqual_symm heq⟩)

/-- Scalars that stand for a third one stand for each other. -/
theorem Same.trans (h : a.Same b) (h' : b.Same c) : a.Same c := by
  rcases h with rfl | h
  · exact h'
  · rcases h' with rfl | h'
    · exact .inr h
    · obtain ⟨k, u⟩ := a
      obtain ⟨k', v⟩ := b
      obtain ⟨k'', w⟩ := c
      obtain ⟨hk, heq⟩ := isEqual_iff.mp h
      obtain rfl : k = k' := hk
      obtain ⟨hk', heq'⟩ := isEqual_iff.mp h'
      obtain rfl : k = k'' := hk'
      exact .inr (isEqual_iff.mpr ⟨rfl, ScalarKind.isEqual_trans heq heq'⟩)

/-- Keys are told apart by their values. -/
theorem Same.eq (h : a.Same b) (hk : a.1.isMapKey = true) : a = b := by
  rcases h with rfl | h
  · rfl
  · obtain ⟨k, u⟩ := a
    obtain ⟨k', v⟩ := b
    obtain ⟨hk', heq⟩ := isEqual_iff.mp h
    obtain rfl : k = k' := hk'
    rw [show u = v from ScalarKind.eq_of_isEqual hk heq]

end Scalar

/-! ## Values -/

/-- A value of the type of a property. -/
inductive Value.IsOf : PropertyType → Value → Prop where
  | scalar {k : ScalarKind} (v : k.Carrier) : IsOf (.scalar k) (.scalar ⟨k, v⟩)
  | list {k : ScalarKind} (vs : List k.Carrier) : IsOf (.list k) (.scalars k vs)
  | enum {e : Nat} (v : BitVec 32) : IsOf (.enum e) (.enumerator e v)
  | enumList {e : Nat} (vs : List (BitVec 32)) : IsOf (.enumList e) (.enumerators e vs)
  | message {t : Nat} (m : Message) : IsOf (.message t) (.message t m)
  | messageList {t : Nat} (ms : List Message) : IsOf (.messageList t) (.messages t ms)
  | hash {key : ScalarKind} {value : MapValue} {entries : List (Scalar × Value)}
      (hkeys : ∀ e ∈ entries, e.1.1 = key) (hnodup : (entries.map Prod.fst).Nodup)
      (hvalues : ∀ e ∈ entries, IsOf (.ofMapValue value) e.2) : IsOf (.hash key value) (.hash entries)
  | custom {h : Nat} {isList : Bool} (content : List Message) : IsOf (.custom h isList) (.custom h content)

/-- The string of a scalar. -/
def Scalar.texts : Scalar → List String
  | ⟨.string, text⟩ => [text]
  | _ => []

/-- The string of a single value. -/
def Value.scalarTexts : Value → List String
  | .scalar v => v.texts
  | _ => []

/-- The strings that are written for a property itself: the one of a field, those of a list, and the
keys and values of a map. -/
def Value.texts : Value → List String
  | .scalar v => v.texts
  | .scalars .string texts => texts
  | .hash entries => entries.flatMap fun e => e.1.texts ++ e.2.scalarTexts
  | _ => []

/-- A field of this kind may have no value. -/
def FieldInfo.mayBeUnset (f : FieldInfo) : Bool :=
  match f.presence with
  | .optional | .oneof _ => true
  | .mapEntry => false
  | .implicit | .required => f.type.isPureMessage

section

variable (S : Schema)

/-- A message as one of its type: its fields have values of their types, and what is kept of unknown
fields is grouped by their numbers. -/
structure Message.Valid (t : MessageType) (m : Message) : Prop where
  fields : ∀ i f, (S.propertyOrdering t).fields[i]? = some f →
    (m.messageProperty i f).IsOf f.type ∨
      m.messageProperty i f = .null ∧ f.mayBeUnset = true
  groups : (m.unknownEntries.map Prod.fst).Nodup
  unknown : ∀ g ∈ m.unknownEntries, g.2 ≠ [] ∧ (S.propertyOrdering t).indexOfFieldNumber g.1 = none

/-- A message and the messages within it. -/
inductive Message.Holds : MessageType → Message → MessageType → Message → Prop where
  | self (t : MessageType) (m : Message) : Holds t m t m
  | message {t u : MessageType} {t' i : Nat} {m m' n : Message} {f : FieldInfo}
      (hf : (S.propertyOrdering t).fields[i]? = some f)
      (hv : m.messageProperty i f = .message t' m') (h : Holds (.named t') m' u n) : Holds t m u n
  | element {t u : MessageType} {t' i : Nat} {m m' n : Message} {f : FieldInfo} {ms : List Message}
      (hf : (S.propertyOrdering t).fields[i]? = some f)
      (hv : m.messageProperty i f = .messages t' ms) (hm : m' ∈ ms) (h : Holds (.named t') m' u n) :
      Holds t m u n
  | value {t u : MessageType} {t' i : Nat} {m m' n : Message} {f : FieldInfo} {key : Scalar}
      {entries : List (Scalar × Value)} (hf : (S.propertyOrdering t).fields[i]? = some f)
      (hv : m.messageProperty i f = .hash entries) (hm : (key, .message t' m') ∈ entries)
      (h : Holds (.named t') m' u n) : Holds t m u n

/-- No string of the message starts with U+FEFF. -/
def Message.Unmarked (t : MessageType) (m : Message) : Prop :=
  ∀ i f, (S.propertyOrdering t).fields[i]? = some f →
    ∀ text ∈ (m.messageProperty i f).texts, startsWithMark text = false

/-- A message of a type, all messages within it being of theirs. -/
def Message.IsOf (t : MessageType) (m : Message) : Prop :=
  ∀ u n, Message.Holds S t m u n → n.Valid S u

/-- Two values with the same content. -/
inductive Value.Same : Value → Value → Prop where
  | null : Same .null .null
  | scalar {a b : Scalar} (h : a.Same b) : Same (.scalar a) (.scalar b)
  | scalars (k : ScalarKind) (vs : List k.Carrier) : Same (.scalars k vs) (.scalars k vs)
  | enumerator (e : Nat) (v : BitVec 32) : Same (.enumerator e v) (.enumerator e v)
  | enumerators (e : Nat) (vs : List (BitVec 32)) : Same (.enumerators e vs) (.enumerators e vs)
  | message {t : Nat} {m m' : Message}
      (hfields : ∀ i f, (S.message t).fields[i]? = some f →
        Same (m.messageProperty i f) (m'.messageProperty i f))
      (hunknown : m.unknownEntries.Perm m'.unknownEntries) : Same (.message t m) (.message t m')
  | custom (h : Nat) (content : List Message) : Same (.custom h content) (.custom h content)
  | messages {t : Nat} {ms ms' : List Message} (hlength : ms.length = ms'.length)
      (h : ∀ (k : Nat) m m', ms[k]? = some m → ms'[k]? = some m' → Same (.message t m) (.message t m')) :
      Same (.messages t ms) (.messages t ms')
  | hash {entries entries' ordered : List (Scalar × Value)} (hperm : ordered.Perm entries')
      (hkeys : entries.map Prod.fst = ordered.map Prod.fst)
      (hvalues : ∀ (k : Nat) e e', entries[k]? = some e → ordered[k]? = some e' → Same e.2 e'.2) :
      Same (.hash entries) (.hash entries')

/-- Two messages with the same fields, set and unset, and the same unknown ones. -/
structure Message.Same (t : MessageType) (m m' : Message) : Prop where
  fields : ∀ i f, (S.propertyOrdering t).fields[i]? = some f →
    (m.messageProperty i f).Same S (m'.messageProperty i f)
  unknown : m.unknownEntries.Perm m'.unknownEntries

end

variable {S : Schema}

/-- Equal values have the same strings. -/
theorem Value.texts_of_sameScalar {v w : Value} (h : v.sameScalar w = true) : v.texts = w.texts := by
  cases v with
  | scalar a =>
    cases w with
    | scalar b =>
      obtain ⟨k, a⟩ := a
      obtain ⟨k', b⟩ := b
      obtain ⟨hk, -⟩ := Scalar.isEqual_iff.mp h
      obtain rfl : k = k' := hk
      have hsame : Scalar.Same ⟨k, a⟩ ⟨k, b⟩ := .inr h
      cases k
      case string => rw [hsame.eq rfl]
      all_goals rfl
    | _ => cases h
  | _ => cases w <;> first | rfl | cases h

/-- A string is the same as no other value. -/
theorem Value.Same.eq_of_text {text : String} {w : Value}
    (h : (Value.scalar ⟨.string, text⟩).Same S w) : w = .scalar ⟨.string, text⟩ := by
  cases h with
  | scalar hscalar => rw [hscalar.eq rfl]

/-- A string that does not start with U+FEFF survives. -/
theorem Scalar.unmarked_of_texts {k : ScalarKind} {v : k.Carrier}
    (h : ∀ text ∈ (Value.scalar ⟨k, v⟩).texts, startsWithMark text = false) : k.unmarked v = v := by
  cases k
  case string => exact dropMark_eq_self (h v List.mem_cons_self)
  all_goals rfl

/-- So do those of a list. -/
theorem Scalar.map_unmarked_of_texts {k : ScalarKind} {vs : List k.Carrier}
    (h : ∀ text ∈ (Value.scalars k vs).texts, startsWithMark text = false) :
    vs.map k.unmarked = vs := by
  refine (List.map_congr_left fun v hv => ?_).trans (List.map_id' vs)
  cases k
  case string => exact dropMark_eq_self (h v hv)
  all_goals rfl

end QtGrpc.Protobuf
