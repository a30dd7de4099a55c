import QtGrpc.Protobuf.Binary.FieldOrder
import Mathlib.Data.List.DropRight
import Mathlib.Data.List.Flatten

/-!
# The members of a oneof on the wire

The members of a oneof displace each other: what is decoded last stays, with the occurrences of it
that came since the oneof switched to it. A member of a message type goes on with the message it
finds, though, and this may be that of another member of the same type.
-/

namespace QtGrpc.Protobuf.Binary

section

variable (S : Schema) (t : MessageType)

/-- The field of a type that an occurrence belongs to. -/
def fieldOf (x : WireField) : Option FieldInfo :=
  ((S.propertyOrdering t).indexOfFieldNumber x.fieldNumber).bind fun i =>
    (S.propertyOrdering t).fields[i]?

/-- An occurrence of a member of the oneof. -/
def isMemberOf (j : Nat) (x : WireField) : Bool :=
  (fieldOf S t x).any fun f => f.presence == .oneof j

/-- The occurrences of the members of the oneof. -/
def occurrences (j : Nat) (xs : List WireField) : List WireField := xs.filter (isMemberOf S t j)

/-- What was decoded last since the oneof switched to it. -/
def sinceSwitch (ys : List WireField) : List WireField :=
  ys.rtakeWhile fun y => ys.getLast?.any (·.fieldNumber == y.fieldNumber)

/-- What was decoded before that. -/
def beforeSwitch (ys : List WireField) : List WireField :=
  ys.rdropWhile fun y => ys.getLast?.any (·.fieldNumber == y.fieldNumber)

/-- What a draft holds in the oneof once its property is written. -/
inductive Draft.Shows (j : Nat) : Draft → Nat × Value → Prop where
  | cached {p : Draft} {i : Nat} {f : FieldInfo} (hindex : p.cache.index = some i)
      (hfield : (S.propertyOrdering t).fields[i]? = some f) (hpresence : f.presence = .oneof j) :
      Shows j p (f.fieldNumber, storedValue S f p.cache.propertyValue)
  | stored {p : Draft} (hother : ∀ i f, p.cache.index = some i →
      (S.propertyOrdering t).fields[i]? = some f → f.presence ≠ .oneof j) :
      Shows j p (p.message.oneofState j)

/-- The members of the oneof. -/
def MemberIndex (j i : Nat) : Prop :=
  ∃ f, (S.propertyOrdering t).fields[i]? = some f ∧ f.presence = .oneof j

/-- What occurrences of a field make of its property, one after the other. -/
inductive Gathers (env : Environment) (keep : Bool) (f : FieldInfo) (v₀ : Value) :
    List WireField → Value → Prop where
  | nil : Gathers env keep f v₀ [] v₀
  | snoc {xs : List WireField} {x : WireField} {v w : Value} (h : Gathers env keep f v₀ xs v)
      (hx : Turns env S keep x f none v none w) : Gathers env keep f v₀ (xs ++ [x]) w

/-- The property that a field finds in a new message. -/
def newProperty (i : Nat) (f : FieldInfo) : Value :=
  (S.initializedProperty (S.defaultMessage t) i f).2

end

section

variable {env : Environment} {S : Schema} {keep : Bool} {t : MessageType} {i j : Nat}
  {f : FieldInfo} {x : WireField} {xs : List WireField} {p q : Draft} {n : Nat} {w : Value}

/-- A field's number leads to it. -/
theorem fieldOf_eq_some
    (hindex : (S.propertyOrdering t).indexOfFieldNumber x.fieldNumber = some i)
    (hf : (S.propertyOrdering t).fields[i]? = some f) : fieldOf S t x = some f := by
  simp [fieldOf, hindex, hf]

/-- The field that is found stands in the descriptor. -/
theorem exists_of_fieldOf (h : fieldOf S t x = some f) :
    ∃ i, (S.propertyOrdering t).indexOfFieldNumber x.fieldNumber = some i ∧
      (S.propertyOrdering t).fields[i]? = some f := by
  obtain ⟨i, hindex, hf⟩ := Option.bind_eq_some_iff.mp h
  exact ⟨i, hindex, hf⟩

/-- A member of the oneof is a field of the descriptor that belongs to it. -/
theorem exists_of_isMemberOf (h : isMemberOf S t j x = true) :
    ∃ i f, (S.propertyOrdering t).indexOfFieldNumber x.fieldNumber = some i ∧
      (S.propertyOrdering t).fields[i]? = some f ∧ f.presence = .oneof j := by
  obtain ⟨f, hfield, hpresence⟩ := (Option.any_eq_true _ _).mp h
  obtain ⟨i, hindex, hf⟩ := exists_of_fieldOf hfield
  exact ⟨i, f, hindex, hf, beq_iff_eq.mp hpresence⟩

/-- A field that is no member of the oneof does not belong to it. -/
theorem presence_ne_of_isMemberOf (h : isMemberOf S t j x = false)
    (hindex : (S.propertyOrdering t).indexOfFieldNumber x.fieldNumber = some i)
    (hf : (S.propertyOrdering t).fields[i]? = some f) : f.presence ≠ .oneof j := by
  intro hpresence
  simp [isMemberOf, fieldOf_eq_some hindex hf, hpresence] at h

/-- No member of a oneof is a map. -/
theorem isMap_of_oneof (hf : (S.propertyOrdering t).fields[i]? = some f)
    (hpresence : f.presence = .oneof j) : f.type.isMap = false := by
  have hfits := (S.propertyOrdering t).presence_fits f (List.mem_of_getElem? hf)
  unfold FieldInfo.presenceFits at hfits
  rw [hpresence] at hfits
  cases htype : f.type <;> simp_all [PropertyType.isMap]

/-! ## One field -/

/-- A message suits the type of its own message only. -/
theorem type_of_suits_message {type : PropertyType} {t' : Nat} {sub : Message}
    (h : (Value.message t' sub).Suits type) : type = .message t' := by
  cases type <;> simp_all [Value.Suits]

/-- A oneof that holds no message of its own member's type holds none at all. -/
theorem oneof_ne_message {m : Message} (h : WellFormed S t m)
    (hf : (S.propertyOrdering t).fields[i]? = some f) (hpresence : f.presence = .oneof j)
    (hnumber : (m.oneofState j).1 = f.fieldNumber) {t' : Nat} (htype : f.type ≠ .message t')
    (sub : Message) : (m.oneofState j).2 ≠ .message t' sub := by
  obtain ⟨-, oneof, -⟩ := h
  intro hvalue
  have hpos := ((S.propertyOrdering t).numbers_bound f (List.mem_of_getElem? hf)).1
  have hsuits := oneof i j f hf hpresence (by
    simp [holdsField, hnumber, hvalue, Value.isNull]
    omega)
  rw [hvalue] at hsuits
  exact htype (type_of_suits_message hsuits)

/-- The setter of another member switches the oneof. -/
theorem oneofState_setMessageProperty {m : Message} {v : Value} (hpresence : f.presence = .oneof j)
    (hv : IsProperty S f v) (hnumber : (m.oneofState j).1 ≠ f.fieldNumber) :
    (S.setMessageProperty m i f v).1.oneofState j = (f.fieldNumber, storedValue S f v) := by
  obtain ⟨w, hconvert, -⟩ := convert_isProperty hv
  unfold Schema.setMessageProperty storedValue
  simp only [hconvert, hpresence, Option.getD_some]
  rw [if_neg fun h => hnumber h.1]
  simp [Message.oneofState]

/-- The written message holds what the draft shows, if the setter stores it as it is; at any rate
it holds it for the same member. -/
theorem Draft.Shows.store (h : p.Shows S t j (n, w)) (hp : p.Sound S t) {c : Cache} {M : Message}
    (hstore : storeCachedValue S t p.cache p.message = (c, M, true)) :
    (M.oneofState j).1 = n ∧
      ((∀ i f, p.cache.index = some i → MemberIndex S t j i →
        (S.propertyOrdering t).fields[i]? = some f →
        S.setMessageProperty p.message i f p.cache.propertyValue =
          (writeProperty S p.message i f p.cache.propertyValue, true)) →
        M.oneofState j = (n, w)) := by
  generalize hstate : (n, w) = state at h
  cases h with
  | cached hindex hf hpresence =>
    rename_i i f
    cases hstate
    have hM := hp.store_cached hindex hf hstore
    constructor
    · have hv := (hp.property hindex hf).suits
      obtain ⟨v, hconvert, -⟩ := convert_isProperty (hp.property hindex hf)
      rw [hM]
      unfold Schema.setMessageProperty
      rw [hconvert]
      simp only [hpresence]
      split
      · exact ‹_ ∧ _›.1
      · simp [Message.oneofState]
    · intro hexact
      have hwritten := hexact i f hindex ⟨f, hf, hpresence⟩ hf
      rw [hM, hwritten]
      simp [writeProperty, storedContent, FieldInfo.memberAt, hpresence, Message.oneofState]
  | stored hother =>
    suffices hM : M.oneofState j = p.message.oneofState j by
      exact ⟨by rw [hM, ← hstate], fun _ => hM⟩
    cases hi : p.cache.index with
    | none =>
      simp only [storeCachedValue, hi] at hstore
      cases hstore
      rfl
    | some i =>
      cases hpending : hp.pending with
      | stored hindex _ => simp [hindex] at hi
      | cached hindex hf hv _ =>
        rw [hindex] at hi
        cases hi
        rw [hp.store_cached hindex hf hstore]
        exact oneofState_of_sameElsewhere (sameElsewhere_setMessageProperty _ _ _ _)
          (hother _ _ hindex hf)

/-- A field that is no member of the oneof leaves what the draft shows, if the setter stores it as
it is; at any rate it leaves it for the same member. -/
theorem Draft.Shows.other (h : p.Shows S t j (n, w)) (hp : p.Sound S t)
    (hx : isMemberOf S t j x = false) (hdecodes : Decodes env S keep t [x] p q) :
    ∃ w', q.Shows S t j (n, w') ∧ ∀ zs, p.Exact S t (MemberIndex S t j) (x :: zs) → w' = w := by
  have hcomplete := hdecodes.complete x List.mem_cons_self
  cases hindex : (S.propertyOrdering t).indexOfFieldNumber x.fieldNumber with
  | none =>
    obtain rfl := (decodes_unknown_iff hcomplete hindex).mp hdecodes
    refine ⟨w, ?_, fun _ _ => rfl⟩
    generalize hstate : (n, w) = state at h ⊢
    cases h with
    | cached hi hf hpresence => exact .cached (p := ⟨_, _⟩) hi hf hpresence
    | stored hother =>
      have hkept : (keptMessage keep p.message x).oneofState j = p.message.oneofState j := by
        simp only [Message.oneofState, member_keptMessage]
      rw [← hkept]
      exact .stored (p := ⟨_, _⟩) hother
  | some k =>
    obtain ⟨g, hg⟩ := exists_field_of_indexOfFieldNumber hindex
    have hpresence := presence_ne_of_isMemberOf hx hindex hg
    obtain ⟨c, m, entry, v, hselect, hturns, rfl⟩ :=
      (decodes_known_iff hcomplete hindex hg).mp hdecodes
    have hshows (hc : c.index = some k) {M : Message} (hM : SameElsewhere k g m M) :
        (Draft.turned ⟨c, m⟩ k g entry v).Shows S t j (M.oneofState j) := by
      have hsame := (sameElsewhere_placeProperty m k g v).trans hM
      rw [← oneofState_of_sameElsewhere hsame hpresence]
      refine .stored fun i f hi hf => ?_
      change c.index = some i at hi
      rw [hc] at hi
      cases hi
      rw [hg] at hf
      cases hf
      exact hpresence
    rcases hp.select k g with ⟨hk, hselected⟩ | ⟨hk, M, hstore, hselected⟩
    · rw [hselected] at hselect
      cases hselect
      refine ⟨w, ?_, fun _ _ => rfl⟩
      generalize hstate : (n, w) = state at h ⊢
      cases h with
      | cached hi hf hmember =>
        rw [hk] at hi
        cases hi
        rw [hg] at hf
        cases hf
        exact absurd hmember hpresence
      | stored hother => exact hshows hk ⟨fun _ _ => rfl, rfl⟩
    · rw [hselected] at hselect
      cases hselect
      obtain ⟨hnumber, hexact⟩ := h.store hp hstore
      refine ⟨(M.oneofState j).2, ?_, fun zs hzs => ?_⟩
      · have := hshows rfl (sameElsewhere_initializedProperty M k g)
        rwa [← hnumber]
      · have heq := hexact fun i f hi hA hf => hzs.written i f hi hA hf fun y hy => by
          obtain rfl := Option.some.inj hy
          exact ⟨k, fun hki => hk (hki ▸ hi), hindex⟩
        rw [heq]

/-- An occurrence of a member is shown. -/
theorem Decodes.shows_member (hp : p.Sound S t)
    (hindex : (S.propertyOrdering t).indexOfFieldNumber x.fieldNumber = some i)
    (hf : (S.propertyOrdering t).fields[i]? = some f) (hpresence : f.presence = .oneof j)
    (hdecodes : Decodes env S keep t [x] p q) :
    q.cache.index = some i ∧
      q.Shows S t j (f.fieldNumber, storedValue S f q.cache.propertyValue) := by
  have hx := hdecodes.complete x List.mem_cons_self
  obtain ⟨c, m, entry, v, hselect, hturns, rfl⟩ := (decodes_known_iff hx hindex hf).mp hdecodes
  obtain ⟨c', m', hselect', hc, -⟩ := selectProperty_spec hp.pending hf
  rw [hselect] at hselect'
  cases hselect'
  exact ⟨hc, .cached (p := Draft.turned _ _ _ _ _) hc hf hpresence⟩

/-- A draft that shows no member has none in its cache. -/
theorem Draft.Shows.exact_of_unset (h : p.Shows S t j (0, w)) (zs : List WireField) :
    p.Exact S t (MemberIndex S t j) zs := by
  have hnone : ∀ i f, p.cache.index = some i → (S.propertyOrdering t).fields[i]? = some f →
      f.presence ≠ .oneof j := by
    generalize hstate : (0, w) = state at h
    cases h with
    | cached hindex hf hpresence =>
      rename_i i f
      have hpos := ((S.propertyOrdering t).numbers_bound f (List.mem_of_getElem? hf)).1
      have hzero := congrArg Prod.fst hstate
      simp only at hzero
      omega
    | stored hother => exact hother
  refine ⟨fun i f hi hA hf _ => ?_, fun i f x hi hA hf _ _ => ?_⟩
  · obtain ⟨g, hg, hpresence⟩ := hA
    exact absurd hpresence (hnone i g hi hg)
  · obtain ⟨g, hg, hpresence⟩ := hA
    exact absurd hpresence (hnone i g hi hg)

/-- The value of the member that a draft shows is found by its next occurrence. -/
theorem Draft.Shows.turns {v : Value} (h : p.Shows S t j (f.fieldNumber, storedValue S f v))
    (hv : v.Suits f.type) (hp : p.Sound S t)
    (hindex : (S.propertyOrdering t).indexOfFieldNumber x.fieldNumber = some i)
    (hf : (S.propertyOrdering t).fields[i]? = some f) (hpresence : f.presence = .oneof j)
    (hdecodes : Decodes env S keep t [x] p q) :
    Turns env S keep x f none v none q.cache.propertyValue := by
  have hx := hdecodes.complete x List.mem_cons_self
  have hmap := isMap_of_oneof hf hpresence
  have hiff {u : Value} (hu : u.Suits f.type) (u' : Value) :
      Turns env S keep x f none u none u' ↔ Turns env S keep x f none (storedValue S f u) none u' :=
    turns_storedValue_iff hu (fun key value htype => by simp [htype, PropertyType.isMap] at hmap)
      fun _ => rfl
  obtain ⟨c, m, entry, u, hselect, hturns, rfl⟩ := (decodes_known_iff hx hindex hf).mp hdecodes
  have hentry := hp.select_entry hf hselect hmap
  have hnone := hturns.entry_eq hmap
  rw [hentry] at hnone hturns
  subst hnone
  change Turns env S keep x f none v none u
  rw [hiff hv]
  generalize hstate : (f.fieldNumber, storedValue S f v) = state at h
  rcases hp.select i f with ⟨hi, hselected⟩ | ⟨hi, M, hstore, hselected⟩
  · rw [hselected] at hselect
    cases hselect
    cases h with
    | cached hk hg hmember =>
      rw [hi] at hk
      cases hk
      rw [hf] at hg
      cases hg
      rw [(Prod.mk.inj hstate).2]
      exact (hiff (hp.property hi hf).suits u).mp hturns
    | stored hother => exact absurd hpresence (hother i f hi hf)
  · rw [hselected] at hselect
    cases hselect
    have hM : M.oneofState j = (f.fieldNumber, storedValue S f v) := by
      cases h with
      | cached hk hg hmember =>
        rename_i k g
        obtain rfl := fieldNumber_injective hf hg (Prod.mk.inj hstate).1
        have hik := indexOfFieldNumber_of_getElem? hf
        rw [indexOfFieldNumber_of_getElem? hg] at hik
        exact absurd (hk.trans hik) hi
      | stored hother =>
        have hshows : p.Shows S t j (f.fieldNumber, storedValue S f v) := hstate ▸ .stored hother
        exact (hshows.store hp hstore).2 fun k g hk hA hg => by
          obtain ⟨g', hg', hmember⟩ := hA
          exact absurd hmember (hother k g' hk hg')
    have hmember : (writeProperty S M i f v).member (f.memberAt i) = M.member (f.memberAt i) := by
      have hnull : (M.oneofState j).2 ≠ .null := by
        intro heq
        have hsuits := (storedValue_suits (S := S) hv).isNull
        rw [hM] at heq
        simp only at heq
        simp [heq, Value.isNull] at hsuits
      rw [writeProperty, Message.member_setMember_self]
      simp only [storedContent, FieldInfo.memberAt, hpresence]
      rw [Message.member_oneof hnull, hM]
    have hvalue : (S.initializedProperty M i f).2 = storedValue S f v := by
      rw [← initializedProperty_of_member hmember, initializedProperty_writeProperty hf hv]
    rwa [hvalue] at hturns

/-- The first occurrence of a member behind another finds a new property, unless the other one has
left a message of its type. -/
theorem Decodes.turns_new (hp : p.Sound S t) (h : p.Shows S t j (n, w)) (hn : n ≠ f.fieldNumber)
    (hindex : (S.propertyOrdering t).indexOfFieldNumber x.fieldNumber = some i)
    (hf : (S.propertyOrdering t).fields[i]? = some f) (hpresence : f.presence = .oneof j)
    (hold : ∀ M, storeCachedValue S t p.cache p.message = ({}, M, true) →
      ∀ t' sub, f.type = .message t' → (M.oneofState j).2 ≠ .message t' sub)
    (hdecodes : Decodes env S keep t [x] p q) :
    Turns env S keep x f none (newProperty S t i f) none q.cache.propertyValue := by
  have hx := hdecodes.complete x List.mem_cons_self
  have hmap := isMap_of_oneof hf hpresence
  obtain ⟨c, m, entry, u, hselect, hturns, rfl⟩ := (decodes_known_iff hx hindex hf).mp hdecodes
  have hentry := hp.select_entry hf hselect hmap
  have hnone := hturns.entry_eq hmap
  rw [hentry] at hnone hturns
  subst hnone
  change Turns env S keep x f none (newProperty S t i f) none u
  rcases hp.select i f with ⟨hi, hselected⟩ | ⟨hi, M, hstore, hselected⟩
  · exfalso
    generalize hstate : (n, w) = state at h
    cases h with
    | cached hk hg hmember =>
      rw [hi] at hk
      cases hk
      rw [hf] at hg
      cases hg
      exact hn (Prod.mk.inj hstate).1
    | stored hother => exact hother i f hi hf hpresence
  · rw [hselected] at hselect
    cases hselect
    have hnumber := (h.store hp hstore).1
    suffices hvalue : (S.initializedProperty M i f).2 = newProperty S t i f by
      rwa [hvalue] at hturns
    have hholds : holdsField (M.oneofState j) f.fieldNumber = false := by
      simp [holdsField, hnumber, hn]
    have hnew : (S.defaultMessage t).oneofState j = (0, .null) := rfl
    have hunset : holdsField (0, .null) f.fieldNumber = false := by simp [holdsField, Value.isNull]
    unfold newProperty Schema.initializedProperty
    cases htype : f.type with
    | message t' =>
      have hensure : S.ensureMessage t' (M.oneofState j).2 = S.defaultMessage (.named t') := by
        unfold Schema.ensureMessage
        split
        · rename_i t'' sub heq
          rw [if_neg]
          rintro rfl
          exact hold M hstore t'' sub htype heq
        · rfl
      have hfresh : S.ensureMessage t' .null = S.defaultMessage (.named t') := rfl
      simp only [hpresence, hensure, hnew, hfresh]
    | _ =>
      simp only [hpresence, hholds, hnew, hunset, Bool.false_eq_true, if_false]

/-! ## A sequence of fields -/

/-- One more field is one more occurrence exactly when it is a member. -/
theorem occurrences_append_singleton (xs : List WireField) (x : WireField) :
    occurrences S t j (xs ++ [x]) =
      occurrences S t j xs ++ if isMemberOf S t j x then [x] else [] := by
  rw [occurrences, List.filter_append, ← occurrences]
  congr 1
  by_cases hx : isMemberOf S t j x <;> simp [hx]

/-- The oneof shows the member that occurred last, or none. -/
theorem Decodes.shows_last (h : Decodes env S keep t xs (.start S t) p) :
    ∃ w, p.Shows S t j (((occurrences S t j xs).getLast?.map (·.fieldNumber)).getD 0, w) ∧
      (occurrences S t j xs = [] → w = .null) := by
  refine h.run (I := fun ys p => ∃ w, p.Shows S t j
    (((occurrences S t j ys).getLast?.map (·.fieldNumber)).getD 0, w) ∧
      (occurrences S t j ys = [] → w = .null)) (Draft.sound_start S t)
    ⟨.null, .stored (p := .start S t) (fun i f hi => by cases hi), fun _ => rfl⟩ ?_
  rintro ys x zs p q - hp ⟨w, hshows, hunset⟩ hx
  cases hmember : isMemberOf S t j x with
  | false =>
    obtain ⟨w', hshows', hexact⟩ := hshows.other hp hmember hx
    have hsame : occurrences S t j (ys ++ [x]) = occurrences S t j ys := by
      simp [occurrences_append_singleton, hmember]
    rw [hsame]
    refine ⟨w', hshows', fun hnone => ?_⟩
    rw [hnone] at hshows
    rw [hexact [] (hshows.exact_of_unset _), hunset hnone]
  | true =>
    obtain ⟨i, f, hindex, hf, hpresence⟩ := exists_of_isMemberOf hmember
    have hnumber : f.fieldNumber = x.fieldNumber := fieldNumber_of_indexOfFieldNumber hindex hf
    have hlast : (occurrences S t j (ys ++ [x])).getLast? = some x := by
      simp [occurrences_append_singleton, hmember]
    have hshown := (hx.shows_member hp hindex hf hpresence).2
    rw [hnumber] at hshown
    refine ⟨storedValue S f q.cache.propertyValue, by rw [hlast]; exact hshown, fun hnone => ?_⟩
    rw [hnone] at hlast
    cases hlast

/-- Behind the occurrence that the oneof switches with, it shows what the occurrences since then
make of a new property. -/
theorem Decodes.shows_gathered {x₀ : WireField} {rest : List WireField} {v₀ : Value}
    (hp : p.Sound S t)
    (hindex : (S.propertyOrdering t).indexOfFieldNumber x₀.fieldNumber = some i)
    (hf : (S.propertyOrdering t).fields[i]? = some f) (hpresence : f.presence = .oneof j)
    (hx₀ : Turns env S keep x₀ f none v₀ none p.cache.propertyValue)
    (hshows : p.Shows S t j (f.fieldNumber, storedValue S f p.cache.propertyValue))
    (hexact : ExactAlong env S keep t (MemberIndex S t j) rest p)
    (hsame : ∀ y ∈ occurrences S t j rest, y.fieldNumber = x₀.fieldNumber)
    (h : Decodes env S keep t rest p q) :
    ∃ v, v.Suits f.type ∧ Gathers S env keep f v₀ (x₀ :: occurrences S t j rest) v ∧
      q.Shows S t j (f.fieldNumber, storedValue S f v) := by
  have hstart : Gathers S env keep f v₀ ([] ++ [x₀]) p.cache.propertyValue := .snoc .nil hx₀
  have hrun := h.run (I := fun ys q => (Decodes env S keep t ys p q ∧ ∃ v, v.Suits f.type ∧
    Gathers S env keep f v₀ (x₀ :: occurrences S t j ys) v ∧
      q.Shows S t j (f.fieldNumber, storedValue S f v))) hp
    ⟨.nil t p, _, hx₀.suits, hstart, hshows⟩ ?_
  · exact hrun.2
  · rintro ys x zs r s rfl hr ⟨hys, v, hv, hgathers, hshown⟩ hx
    refine ⟨hys.append hx, ?_⟩
    rw [occurrences_append_singleton]
    cases hmember : isMemberOf S t j x with
    | false =>
      obtain ⟨w', hshown', hw'⟩ := hshown.other hr hmember hx
      rw [hw' zs (hexact ys (x :: zs) r rfl hys)] at hshown'
      exact ⟨v, hv, by simpa using hgathers, hshown'⟩
    | true =>
      have hnumber : x.fieldNumber = x₀.fieldNumber :=
        hsame x (by simp [occurrences, hmember])
      rw [← hnumber] at hindex
      have hturns := hshown.turns hv hr hindex hf hpresence hx
      exact ⟨_, hturns.suits, .snoc hgathers hturns, (hx.shows_member hr hindex hf hpresence).2⟩

/-- Without fields nothing is gathered. -/
theorem Gathers.eq_of_nil {v₀ v : Value} (h : Gathers S env keep f v₀ xs v) (hxs : xs = []) :
    v = v₀ := by
  cases h with
  | nil => rfl
  | snoc h hx => simp at hxs

/-- Occurrences of a member alone are decoded to what they make of a new property. -/
theorem Gathers.decodes {v : Value} (h : Gathers S env keep f (newProperty S t i f) xs v)
    (hf : (S.propertyOrdering t).fields[i]? = some f) (hpresence : f.presence = .oneof j)
    (hx : ∀ x ∈ xs, x.Complete env ∧
      (S.propertyOrdering t).indexOfFieldNumber x.fieldNumber = some i) :
    ∃ q, Decodes env S keep t xs (.start S t) q ∧ (q.message.oneofState j).1 = 0 ∧
      (xs ≠ [] → q.cache.index = some i ∧ q.cache.propertyValue = v) := by
  have hmap := isMap_of_oneof hf hpresence
  induction h with
  | nil => exact ⟨_, .nil t _, rfl, fun hne => absurd rfl hne⟩
  | snoc h hturns ih =>
    rename_i xs x v w
    obtain ⟨q, hdecodes, hzero, hcached⟩ := ih fun y hy => hx y (List.mem_append_left _ hy)
    obtain ⟨hcomplete, hindex⟩ := hx x (List.mem_append_right _ List.mem_cons_self)
    have hsound := hdecodes.sound (Draft.sound_start S t)
    obtain ⟨c, m, hselect, hc, hvalue, hstate⟩ : ∃ c m,
        selectProperty S t i f q.cache q.message = (c, m, true) ∧ c.index = some i ∧
          c.propertyValue = v ∧ (m.oneofState j).1 = 0 := by
      by_cases hne : xs = []
      · have hfirst : q = .start S t := by
          subst hne
          exact hdecodes.eq_of_nil
        refine ⟨{ index := some i, propertyValue := (S.initializedProperty q.message i f).2 },
          (S.initializedProperty q.message i f).1, ?_, rfl, ?_, ?_⟩
        · simp [hfirst, Draft.start, selectProperty, storeCachedValue]
        · rw [h.eq_of_nil hne, hfirst]
          rfl
        · rw [← hzero]
          unfold Schema.initializedProperty
          rw [hpresence]
          cases f.type with
          | message t' => simp [Message.oneofState]
          | _ =>
            simp only
            split <;> rfl
      · obtain ⟨hi, hvalue⟩ := hcached hne
        exact ⟨q.cache, q.message, by simp [selectProperty, hi], hi, hvalue, hzero⟩
    have hentry := hsound.select_entry hf hselect hmap
    refine ⟨_, hdecodes.append ((decodes_known_iff hcomplete hindex hf).mpr
      ⟨c, m, none, w, hselect, by rwa [hentry, hvalue], rfl⟩), ?_, fun _ => ⟨hc, rfl⟩⟩
    exact (number_placeProperty m i f w j).trans hstate

end

/-! ## A whole message -/

/-- A message as it is sent, with a oneof of its type. -/
structure OneofMessage (env : Environment) (S : Schema) (t : MessageType) where
  fields : List WireField
  oneof : Nat
  hfits : ∀ x ∈ fields, Fits env S t x
  hrequired : RequiredPresent S t fields

namespace OneofMessage

variable {env : Environment} {S : Schema} {t : MessageType}

def bytes (M : OneofMessage env S t) : Bytes := M.fields.flatMap WireField.bytes

/-- The occurrences of the members of the oneof. -/
def members (M : OneofMessage env S t) : List WireField := occurrences S t M.oneof M.fields

/-- The oneof is decoded to what the occurrences of its last member make that came since the oneof
switched to it. -/
def Switches (M : OneofMessage env S t) (s : Serializer) : Prop :=
  ∀ fuel, M.bytes.length < fuel → ∃ s₁ s₂ m m' ok,
    s.deserialize env S fuel t M.bytes = (s₁, m, .returned true) ∧
    s.deserialize env S fuel t ((sinceSwitch M.members).flatMap WireField.bytes) =
      (s₂, m', .returned ok) ∧
    m.oneofState M.oneof = m'.oneofState M.oneof ∧
    ∀ x, M.members.getLast? = some x → holdsField (m.oneofState M.oneof) x.fieldNumber = true

/-- The last member is of no message type, or the one before it is not of the same; and whenever a
member is written, its setter does not take it for the different one it holds. -/
structure KeepsApart (M : OneofMessage env S t) (s : Serializer) : Prop where
  types : ∀ x y f g t', M.members.getLast? = some x → (beforeSwitch M.members).getLast? = some y →
    fieldOf S t x = some f → fieldOf S t y = some g → f.type = .message t' → g.type ≠ .message t'
  stores : ExactAlong env S s.deserializer.preserveUnknownFields t (MemberIndex S t M.oneof)
    M.fields (.start S t)

/-- The fields since the last switch are among the message's. -/
theorem sinceSwitch_sublist (M : OneofMessage env S t) :
    (sinceSwitch M.members).Sublist M.fields :=
  (List.rtakeWhile_suffix _ _).sublist.trans List.filter_sublist

/-- The fields since the last switch are no longer than the message. -/
theorem length_sinceSwitch_le (M : OneofMessage env S t) :
    ((sinceSwitch M.members).flatMap WireField.bytes).length ≤ M.bytes.length :=
  (M.sinceSwitch_sublist.flatMap WireField.bytes).length_le

/-- The fields in front of the occurrence that the oneof switched with last, and those behind it. -/
theorem exists_switch (M : OneofMessage env S t) {x : WireField}
    (hlast : M.members.getLast? = some x) : ∃ front x₀ rest,
      M.fields = front ++ x₀ :: rest ∧
      occurrences S t M.oneof front = beforeSwitch M.members ∧
      isMemberOf S t M.oneof x₀ = true ∧
      x₀ :: occurrences S t M.oneof rest = sinceSwitch M.members ∧
      (∀ y ∈ x₀ :: occurrences S t M.oneof rest, y.fieldNumber = x.fieldNumber) ∧
      ∀ y, (beforeSwitch M.members).getLast? = some y → y.fieldNumber ≠ x.fieldNumber := by
  have hne : sinceSwitch M.members ≠ [] := by
    intro hnil
    obtain ⟨front, hfront⟩ := List.getLast?_eq_some_iff.mp hlast
    rw [sinceSwitch, List.rtakeWhile_eq_nil_iff] at hnil
    refine hnil (by simp [hfront]) ?_
    simp [hfront]
  obtain ⟨x₀, since, hsince⟩ := List.exists_cons_of_ne_nil hne
  have hsplit : beforeSwitch M.members ++ x₀ :: since = M.members := by
    rw [← hsince]
    exact List.rdropWhile_append_rtakeWhile
  have hnumbers : ∀ y ∈ sinceSwitch M.members, y.fieldNumber = x.fieldNumber := by
    intro y hy
    have htrue := List.mem_rtakeWhile_imp hy
    rw [hlast] at htrue
    exact (beq_iff_eq.mp htrue).symm
  obtain ⟨front, back, hfields, hfront, hback⟩ := List.filter_eq_append_iff.mp hsplit.symm
  obtain ⟨skipped, rest, hbackEq, hskipped, hx₀, hrest⟩ := List.filter_eq_cons_iff.mp hback
  refine ⟨front ++ skipped, x₀, rest, ?_, ?_, hx₀, ?_, ?_, fun y hy => ?_⟩
  · rw [hfields, hbackEq, List.append_assoc]
  · rw [occurrences, List.filter_append, hfront, List.filter_eq_nil_iff.mpr hskipped,
      List.append_nil]
  · rw [hsince, occurrences, hrest]
  · rw [show occurrences S t M.oneof rest = since from hrest, ← hsince]
    exact hnumbers
  · obtain ⟨init, hinit⟩ := List.getLast?_eq_some_iff.mp hy
    have hbefore : M.members.rdropWhile (fun y => M.members.getLast?.any
        (·.fieldNumber == y.fieldNumber)) = init ++ [y] := hinit
    have hlastNot := List.rdropWhile_last_not
      (fun y => M.members.getLast?.any (·.fieldNumber == y.fieldNumber)) M.members
      (by rw [hbefore]; simp)
    simp only [hlast, Option.any_some] at hbefore hlastNot
    simp only [hbefore, List.getLast_append_singleton, beq_iff_eq] at hlastNot
    exact fun heq => hlastNot heq.symm

/-- A oneof whose members keep apart is decoded to the occurrences since it switched last. -/
theorem KeepsApart.switches {M : OneofMessage env S t} {s : Serializer} (h : M.KeepsApart s)
    (hsize : M.bytes.length ≤ s.effectiveMaximumInputSize) : M.Switches s := by
  intro fuel hfuel
  have hlength := M.length_sinceSwitch_le
  obtain ⟨p, hdecodes, hp⟩ := exists_decodes_of_fits s.deserializer.preserveUnknownFields M.hfits
    (Draft.sound_start S t)
  obtain ⟨m, hstore, hformed⟩ := hp.store
  obtain ⟨s₁, ok₁, hresult, hok⟩ := hdecodes.deserialize hstore hsize hfuel
  rw [hok.mpr M.hrequired] at hresult
  cases hlast : M.members.getLast? with
  | none =>
    have hnone : M.members = [] := List.getLast?_eq_none_iff.mp hlast
    obtain ⟨w, hshows, hunset⟩ := hdecodes.shows_last (j := M.oneof)
    have hnone' : occurrences S t M.oneof M.fields = [] := hnone
    rw [hunset hnone', hnone'] at hshows
    have hstate := (hshows.store hp hstore).2 fun i f hi hA hf =>
      (hshows.exact_of_unset []).written i f hi hA hf (by simp)
    have hsince : sinceSwitch M.members = [] := by rw [hnone]; rfl
    rw [hsince]
    have hempty : Decodes env S s.deserializer.preserveUnknownFields t [] (.start S t) (.start S t) :=
      .nil t _
    obtain ⟨s₂, ok, hresult', -⟩ := hempty.deserialize rfl (Nat.zero_le _) (Nat.zero_lt_of_lt hfuel)
    exact ⟨s₁, s₂, m, _, ok, hresult, hresult', hstate, fun x hx => (by cases hx)⟩
  | some x =>
    obtain ⟨front, x₀, rest, hfields, hfront, hx₀, hsince, hsame, hother⟩ := M.exists_switch hlast
    obtain ⟨i, f, hindex, hf, hpresence⟩ := exists_of_isMemberOf hx₀
    have hnumber : f.fieldNumber = x.fieldNumber :=
      (fieldNumber_of_indexOfFieldNumber hindex hf).trans (hsame x₀ List.mem_cons_self)
    have hexact := h.stores
    rw [hfields] at hdecodes hexact
    obtain ⟨p₀, hbefore, hbehind⟩ := hdecodes.of_append
    obtain ⟨q₀, hswitch, hrest⟩ := hbehind.of_cons
    have hp₀ := hbefore.sound (Draft.sound_start S t)
    have hq₀ := hswitch.sound hp₀
    obtain ⟨w, hshows, hunset⟩ := hbefore.shows_last (j := M.oneof)
    have hnew : ((occurrences S t M.oneof front).getLast?.map (·.fieldNumber)).getD 0 ≠
        f.fieldNumber := by
      rw [hfront, hnumber]
      cases hy : (beforeSwitch M.members).getLast? with
      | none =>
        have hpos := ((S.propertyOrdering t).numbers_bound f (List.mem_of_getElem? hf)).1
        simp only [Option.map_none, Option.getD_none]
        omega
      | some y => exact hother y hy
    have hturns := hswitch.turns_new hp₀ hshows hnew hindex hf hpresence
      fun m₀ hm₀ t' sub htype => by
        obtain ⟨m₁, hm₁, hformed₁⟩ := hp₀.store
        rw [hm₁] at hm₀
        cases hm₀
        have hnumber₀ := (hshows.store hp₀ hm₁).1
        cases hy : (beforeSwitch M.members).getLast? with
        | none =>
          have hnone : occurrences S t M.oneof front = [] := by
            rw [hfront]
            exact List.getLast?_eq_none_iff.mp hy
          rw [hunset hnone, hnone] at hshows
          rw [(hshows.store hp₀ hm₁).2 fun i' f' hi hA hf' =>
            (hshows.exact_of_unset []).written i' f' hi hA hf' (by simp)]
          simp
        | some y =>
          rw [hfront, hy] at hnumber₀
          have hmember : isMemberOf S t M.oneof y = true := by
            have hmem := List.mem_of_getLast? hy
            rw [← hfront] at hmem
            exact List.of_mem_filter hmem
          obtain ⟨k, g, hk, hg, hpresence'⟩ := exists_of_isMemberOf hmember
          have htype' := h.types x y f g t' hlast hy
            (fieldOf_eq_some (hnumber ▸ indexOfFieldNumber_of_getElem? hf) hf)
            (fieldOf_eq_some hk hg) htype
          exact oneof_ne_message hformed₁ hg hpresence'
            (hnumber₀.trans (fieldNumber_of_indexOfFieldNumber hk hg).symm) htype' sub
    have hshown := (hswitch.shows_member hp₀ hindex hf hpresence).2
    have hsameRest : ∀ y ∈ occurrences S t M.oneof rest, y.fieldNumber = x₀.fieldNumber := by
      intro y hy
      rw [hsame y (List.mem_cons_of_mem _ hy), hsame x₀ List.mem_cons_self]
    have hexactRest : ExactAlong env S s.deserializer.preserveUnknownFields t
        (MemberIndex S t M.oneof) rest q₀ :=
      (hexact.tail front hbefore).tail [x₀] hswitch
    obtain ⟨v, hv, hgathers, hshowsLast⟩ :=
      hrest.shows_gathered hq₀ hindex hf hpresence hturns hshown hexactRest hsameRest
    rw [hsince] at hgathers hsame
    have hstate := (hshowsLast.store hp hstore).2 fun i' f' hi hA hf' =>
      (hexactRest.last hrest).written i' f' hi hA hf' (by simp)
    obtain ⟨q, hq, hzero, hcached⟩ := hgathers.decodes hf hpresence fun y hy => by
      refine ⟨(M.hfits y (M.sinceSwitch_sublist.subset hy)).complete, ?_⟩
      rw [hsame y hy, ← hnumber]
      exact indexOfFieldNumber_of_getElem? hf
    have hne : sinceSwitch M.members ≠ [] := by
      rw [← hsince]
      simp
    obtain ⟨hi, hvalue⟩ := hcached hne
    have hqSound := hq.sound (Draft.sound_start S t)
    obtain ⟨m', hstore', -⟩ := hqSound.store
    obtain ⟨s₂, ok, hresult', -⟩ := hq.deserialize hstore' (hlength.trans hsize)
      (Nat.lt_of_le_of_lt hlength hfuel)
    have hstate' : m'.oneofState M.oneof = (f.fieldNumber, storedValue S f v) := by
      rw [hqSound.store_cached hi hf hstore', hvalue]
      have hpos := ((S.propertyOrdering t).numbers_bound f (List.mem_of_getElem? hf)).1
      exact oneofState_setMessageProperty hpresence (hvalue ▸ hqSound.property hi hf) (by omega)
    refine ⟨s₁, s₂, m, m', ok, hresult, hresult', hstate.trans hstate'.symm, fun y hy => ?_⟩
    cases hy
    have hpos := ((S.propertyOrdering t).numbers_bound f (List.mem_of_getElem? hf)).1
    rw [hstate]
    simp [holdsField, hnumber, (storedValue_suits (S := S) hv).isNull]
    omega

/-- The setters store what they are given if they tell the values of the members apart. -/
theorem stores_of_distinguishes (M : OneofMessage env S t) (keep : Bool)
    (hd : ∀ f ∈ (S.propertyOrdering t).fields, f.presence = .oneof M.oneof →
      Distinguishes env S f M.fields) :
    ExactAlong env S keep t (MemberIndex S t M.oneof) M.fields (.start S t) := by
  have hstart : Decodes env S keep t [] (.start S t) (.start S t) := .nil t _
  refine exactAlong_of_distinguishes (fun i f hA hf => ?_) hstart
  obtain ⟨g, hg, hpresence⟩ := hA
  rw [hf] at hg
  cases hg
  exact hd f (List.mem_of_getElem? hf) hpresence

end OneofMessage

/-- What is decoded into a oneof is what its last member's occurrences make since it was switched
to, if no two members of the same message type meet there and the setters store what they are
given. -/
theorem switches_of_keepsApart (env : Environment) (S : Schema) (t : MessageType)
    (M : OneofMessage env S t) (s : Serializer)
    (hsize : M.bytes.length ≤ s.effectiveMaximumInputSize) (h : M.KeepsApart s) : M.Switches s :=
  h.switches hsize

/-- A message type with a oneof of two points and a radius, and a number beside it. -/
def shapeSchema : Schema where
  message
    | 0 => ⟨"Shape", [
        { fieldNumber := 1, jsonName := "center", type := .message 1, presence := .oneof 0 },
        { fieldNumber := 2, jsonName := "corner", type := .message 1, presence := .oneof 0 },
        { fieldNumber := 3, jsonName := "radius", type := .scalar .double, presence := .oneof 0 },
        { fieldNumber := 4, jsonName := "sides", type := .scalar .int32 }],
        by decide, by decide, by decide⟩
    | 1 => ⟨"Point", [
        { fieldNumber := 1, jsonName := "x", type := .scalar .int32 },
        { fieldNumber := 2, jsonName := "y", type := .scalar .int32 }],
        by decide, by decide, by decide⟩
    | _ => .withoutFields "Empty"
  enumKeys _ := []
  findHandler _ := none
  typeName _ := ""

def xField : WireField := ⟨1, .varint, [0x08], [0x01]⟩

def yField : WireField := ⟨2, .varint, [0x10], [0x02]⟩

/-- The center, with the first coordinate only. -/
def centerField : WireField := ⟨1, .lengthDelimited, [0x0A], [0x02, 0x08, 0x01]⟩

/-- The corner, with the second coordinate only. -/
def cornerField : WireField := ⟨2, .lengthDelimited, [0x12], [0x02, 0x10, 0x02]⟩

def radiusField (payload : Bytes) : WireField := ⟨3, .fixed64, [0x19], payload⟩

def sidesField : WireField := ⟨4, .varint, [0x20], [0x03]⟩

/-- Messages of the sample schema require no field. -/
theorem requiredPresent_shape {t : MessageType} (xs : List WireField)
    (h : ∀ f ∈ (shapeSchema.propertyOrdering t).fields, f.fieldFlags.required = false) :
    RequiredPresent shapeSchema t xs := by
  intro f hf hrequired
  rw [h f hf] at hrequired
  cases hrequired

/-- The sample's message field fits. -/
theorem fits_centerField : Fits nullTerminated shapeSchema (.named 0) centerField := by
  refine @Fits.message nullTerminated shapeSchema (.named 0) (.named 1) centerField 0 _ [0x02] [xField]
    ⟨by decide, by decide, ⟨10, by decide, by decide⟩, .lengthDelimited [0x02] [0x08, 0x01]
      (by decide) (by decide)⟩ (by decide) rfl rfl rfl (by decide) (by decide) ?_
    (requiredPresent_shape _ (by decide))
  simpa using .plain (i := 0) ⟨by decide, by decide, ⟨8, by decide, by decide⟩,
    .varint _ 1 (by decide)⟩ (by decide) rfl (.scalar (k := .int32) rfl .null)

/-- The sample's second message field fits. -/
theorem fits_cornerField : Fits nullTerminated shapeSchema (.named 0) cornerField := by
  refine @Fits.message nullTerminated shapeSchema (.named 0) (.named 1) cornerField 1 _ [0x02] [yField]
    ⟨by decide, by decide, ⟨18, by decide, by decide⟩, .lengthDelimited [0x02] [0x10, 0x02]
      (by decide) (by decide)⟩ (by decide) rfl rfl rfl (by decide) (by decide) ?_
    (requiredPresent_shape _ (by decide))
  simpa using .plain (i := 1) ⟨by decide, by decide, ⟨16, by decide, by decide⟩,
    .varint _ 2 (by decide)⟩ (by decide) rfl (.scalar (k := .int32) rfl .null)

/-- The sample's scalar field fits for every payload of eight bytes. -/
theorem fits_radiusField (payload : Bytes) (h : payload.length = 8) :
    Fits nullTerminated shapeSchema (.named 0) (radiusField payload) :=
  .plain (i := 2) ⟨(by decide : 0 < 3), (by decide : 3 ≤ 2 ^ 29 - 1),
    ⟨25, (by decide : IsVarint nullTerminated [0x19] 25), rfl⟩, .fixed64 _ h⟩ rfl rfl
    (.scalar (k := .double) rfl .null)

/-- The field outside the oneof fits. -/
theorem fits_sidesField : Fits nullTerminated shapeSchema (.named 0) sidesField :=
  .plain (i := 3) ⟨by decide, by decide, ⟨32, by decide, by decide⟩, .varint _ 3 (by decide)⟩
    (by decide) rfl (.scalar (k := .int32) rfl .null)

/-- The center and then a radius. -/
def centerThenRadius : OneofMessage nullTerminated shapeSchema (.named 0) where
  fields := [centerField, sidesField, radiusField plusZero]
  oneof := 0
  hfits := by simpa using ⟨fits_centerField, fits_sidesField, fits_radiusField _ rfl⟩
  hrequired := requiredPresent_shape _ (by decide)

/-- The sample switches from a message to a scalar. -/
theorem keepsApart_centerThenRadius : centerThenRadius.KeepsApart .initial := by
  constructor
  · intro x y f g t' hx _ hf _ htype
    obtain rfl : radiusField plusZero = x := Option.some.inj hx
    cases hf
    cases htype
  · refine OneofMessage.stores_of_distinguishes _ _ fun f hf hpresence => ?_
    have hpoint {f : FieldInfo} (htype : f.type = .message 1) :
        Distinguishes nullTerminated shapeSchema f centerThenRadius.fields := by
      refine ⟨fun _ a b ha => ?_, fun key t' h => ?_, fun handler h => ?_⟩
      · cases ha with
        | carried hx hnumber hcarries => cases hcarries <;> simp_all
        | initial h => simp_all
      · simp [htype] at h
      · simp [htype, Schema.handlerOf] at h
    simp only [shapeSchema, Schema.propertyOrdering, List.mem_cons, List.not_mem_nil, or_false] at hf
    rcases hf with rfl | rfl | rfl | rfl
    · exact hpoint rfl
    · exact hpoint rfl
    · refine ⟨fun _ a b ha hb _ => ?_, fun _ _ htype => (by cases htype),
        fun _ hhandler => (by cases hhandler)⟩
      have hone {c : Scalar} (hc : Compared nullTerminated
          ⟨3, "radius", .scalar .double, .oneof 0, true⟩ centerThenRadius.fields c) :
          c = ⟨.double, (0 : BitVec 64)⟩ := by
        cases hc with
        | carried hx hnumber hcarries =>
          simp only [centerThenRadius, List.mem_cons, List.not_mem_nil, or_false] at hx
          rcases hx with rfl | rfl | rfl
          · cases hnumber
          · cases hnumber
          · cases hcarries with
            | scalar htype =>
              cases htype
              rfl
            | _ htype => cases htype
        | initial htype hpresence => cases hpresence
      rw [hone ha, hone hb]
    · cases hpresence

/-- After the switch only the scalar is set. -/
theorem switches_centerThenRadius :
    centerThenRadius.KeepsApart .initial ∧ centerThenRadius.Switches .initial :=
  ⟨keepsApart_centerThenRadius, switches_of_keepsApart nullTerminated shapeSchema (.named 0)
    centerThenRadius .initial (by decide) keepsApart_centerThenRadius⟩

/-- The center and then the corner. -/
def centerThenCorner : OneofMessage nullTerminated shapeSchema (.named 0) where
  fields := [centerField, cornerField]
  oneof := 0
  hfits := by simpa using ⟨fits_centerField, fits_cornerField⟩
  hrequired := requiredPresent_shape _ (by decide)

/-- Two radii, with the number between them. -/
def twoRadii : OneofMessage nullTerminated shapeSchema (.named 0) where
  fields := [radiusField plusZero, sidesField, radiusField minusZero]
  oneof := 0
  hfits := by simpa using ⟨fits_radiusField _ rfl, fits_sidesField, fits_radiusField _ rfl⟩
  hrequired := requiredPresent_shape _ (by decide)

/-- The first coordinate of the point in a shape, or its radius. -/
def heldNumber (m : Message) : Value :=
  match (m.oneofState 0).2 with
  | .message _ point => point.member (.field 0)
  | v => v

/-- The corner has the first coordinate of the center before it, and a negative zero is not stored
over a positive one. -/
theorem not_switches_shapes :
    centerThenCorner.bytes = [0x0A, 0x02, 0x08, 0x01, 0x12, 0x02, 0x10, 0x02] ∧
      ¬centerThenCorner.Switches .initial ∧ ¬twoRadii.Switches .initial := by
  refine ⟨by decide, fun h => ?_, fun h => ?_⟩
  · obtain ⟨s₁, s₂, m, m', ok, h₁, h₂, hsame, -⟩ := h 9 (by decide)
    have hwhole : .scalar ⟨.int32, 1#32⟩ = heldNumber m :=
      congrArg (fun result : Serializer × Message × Outcome => heldNumber result.2.1) h₁
    have halone : .scalar ⟨.int32, 0#32⟩ = heldNumber m' :=
      congrArg (fun result : Serializer × Message × Outcome => heldNumber result.2.1) h₂
    have hsame' : heldNumber m = heldNumber m' := by
      simp only [heldNumber, show m.oneofState 0 = m'.oneofState 0 from hsame]
    rw [hsame', ← halone] at hwhole
    exact absurd (Value.scalar.inj hwhole) (by decide)
  · obtain ⟨s₁, s₂, m, m', ok, h₁, h₂, hsame, -⟩ := h 21 (by decide)
    have hwhole : .scalar ⟨.double, 0#64⟩ = heldNumber m :=
      congrArg (fun result : Serializer × Message × Outcome => heldNumber result.2.1) h₁
    have halone : .scalar ⟨.double, 0x8000000000000000#64⟩ = heldNumber m' :=
      congrArg (fun result : Serializer × Message × Outcome => heldNumber result.2.1) h₂
    have hsame' : heldNumber m = heldNumber m' := by
      simp only [heldNumber, show m.oneofState 0 = m'.oneofState 0 from hsame]
    rw [hsame', ← halone] at hwhole
    exact absurd (Value.scalar.inj hwhole) (by decide)

end QtGrpc.Protobuf.Binary
