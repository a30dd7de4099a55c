import QtGrpc.Protobuf.Binary.Serializer
import QtGrpc.WellKnown.Any
import Mathlib.Order.Filter.AtTopBot.Basic
import Mathlib.Order.Filter.Finite

/-!
# The encoders return

The encoders recurse into the messages within a message and, where a required message is not set,
into a default message. A message has finitely many levels, and a default message is begun only for
a type that none of the default messages around it has, so that the recursion ends whatever the
format. A handler may make a message of a value, as long as what is new in that has no value with a
handler again. From some amount of fuel on the result does not depend on it.
-/

namespace QtGrpc.Protobuf

open Filter

/-! ## Messages within messages -/

/-- A message directly within a value. -/
inductive Value.Contains : Value → Message → Prop where
  | message (t : Nat) (m : Message) : Contains (.message t m) m
  | messages {t : Nat} {ms : List Message} {m : Message} (h : m ∈ ms) : Contains (.messages t ms) m
  | entry {entries : List (Scalar × Value)} {e : Scalar × Value} {m : Message} (he : e ∈ entries)
      (h : Contains e.2 m) : Contains (.hash entries) m
  | custom {k : Nat} {content : List Message} {m : Message} (h : m ∈ content) :
      Contains (.custom k content) m
  | oneof {n : Nat} {v : Value} {m : Message} (h : Contains v m) : Contains (.oneof n v) m

/-- What holds of a message if it holds of the messages within it, holds of all. -/
theorem Message.induction {P : Message → Prop}
    (h : ∀ m : Message, (∀ x sub, (m.member x).Contains sub → P sub) → P m) (m : Message) : P m := by
  refine @Message.rec P (fun v => ∀ sub, v.Contains sub → P sub) (fun ms => ∀ sub ∈ ms, P sub)
    (fun entries => ∀ e ∈ entries, ∀ sub, e.2.Contains sub → P sub)
    (fun e => ∀ sub, e.2.Contains sub → P sub) ?_ ?_ ?_ ?_ ?_ ?_ ?_ ?_ ?_ ?_ ?_ ?_ ?_ ?_ ?_ ?_ m
  case refine_1 => exact fun member unknownEntries ih => h _ ih
  case refine_7 =>
    intro t sub ih _ hsub
    cases hsub with
    | message => exact ih
  case refine_8 =>
    intro t ms ih sub hsub
    cases hsub with
    | messages hmem => exact ih sub hmem
  case refine_9 =>
    intro entries ih sub hsub
    cases hsub with
    | entry he hsub => exact ih _ he sub hsub
  case refine_10 =>
    intro k content ih sub hsub
    cases hsub with
    | custom hmem => exact ih sub hmem
  case refine_11 =>
    intro n v ih sub hsub
    cases hsub with
    | oneof hsub => exact ih sub hsub
  case refine_13 =>
    intro sub subs hsub hsubs
    exact List.forall_mem_cons.mpr ⟨hsub, hsubs⟩
  case refine_15 =>
    intro e entries he hentries
    exact List.forall_mem_cons.mpr ⟨he, hentries⟩
  case refine_16 => exact fun key v ih => ih
  case refine_12 | refine_14 => simp
  all_goals
    intros
    rename_i hsub
    cases hsub

/-- What a property contains is contained in a member. -/
theorem contains_messageProperty {m sub : Message} {i : Nat} {f : FieldInfo}
    (h : (m.messageProperty i f).Contains sub) : ∃ x, (m.member x).Contains sub := by
  unfold Message.messageProperty at h
  split at h
  · rename_i j hpresence
    refine ⟨.oneof j, ?_⟩
    unfold Message.oneofState at h
    split at h
    · split at h
      · rename_i hmember _
        rw [hmember]
        exact .oneof h
      · cases h
    · split at h <;> cases h
  · exact ⟨.field i, h⟩

/-- The messages a property is written as, unless it is a map. -/
def writtenMessages (S : Schema) (f : FieldInfo) (value : Value) : List (MessageType × Message) :=
  match value with
  | .message t m => [(.named t, m)]
  | .messages t ms => ms.map fun m => (.named t, m)
  | .custom _ content =>
    match S.handlerOf f.type with
    | some handler => (handler.objects content).map fun m => (handler.proxy, m)
    | none => []
  | _ => []

/-! ## More fuel -/

section

variable {σ : Type} {b : SerializerFormat σ} {S : Schema} {order : HashOrder}

/-- More results of the step are more results of the loop. -/
theorem foldlM_mono {α β : Type} {write write' : β → α → Option β}
    (hwrite : ∀ x a y, write x a = some y → write' x a = some y) (l : List α) {x y : β}
    (h : l.foldlM write x = some y) : l.foldlM write' x = some y := by
  induction l generalizing x with
  | nil => exact h
  | cons a l ih =>
    rw [List.foldlM_cons] at h ⊢
    obtain ⟨z, hz, hrest⟩ := Option.bind_eq_some_iff.mp h
    exact Option.bind_eq_some_iff.mpr ⟨z, hwrite x a z hz, ih hrest⟩

/-- More results for one entry are more results for the map. -/
theorem serializeEntries_mono
    {write write' : Message → SerializerBase σ → Option (SerializerBase σ)}
    (hwrite : ∀ m x y, write m x = some y → write' m x = some y) (entries : List (Scalar × Value))
    {entry : Message} {x y : SerializerBase σ} (h : serializeEntries write entry entries x = some y) :
    serializeEntries write' entry entries x = some y := by
  induction entries generalizing entry x with
  | nil => exact h
  | cons e entries ih =>
    obtain ⟨z, hz, hrest⟩ := Option.bind_eq_some_iff.mp h
    exact Option.bind_eq_some_iff.mpr ⟨z, hwrite _ x z hz, ih hrest⟩

section

variable {nested nested' : MessageType → Message → FieldInfo → SerializerBase σ →
  Option (SerializerBase σ)}

/-- More results for nested messages are more results for the property. -/
theorem serializeProperty_mono
    (hnested : ∀ t m f x y, nested t m f x = some y → nested' t m f x = some y) {f : FieldInfo}
    {value : Value} {x y : SerializerBase σ}
    (h : serializeProperty b S order nested f value x = some y) :
    serializeProperty b S order nested' f value x = some y := by
  unfold serializeProperty at h ⊢
  split at h
  · split at h
    · rename_i hrequired
      rw [if_pos hrequired]
      unfold serializeDefaultMessageField at h ⊢
      split at h
      · rename_i hmem
        rw [if_pos hmem]
        exact h
      · rename_i hmem
        rw [if_neg hmem]
        obtain ⟨z, hz, rfl⟩ := Option.map_eq_some_iff.mp h
        exact Option.map_eq_some_iff.mpr ⟨z, hnested _ _ _ _ _ hz, rfl⟩
    · rename_i hrequired
      rw [if_neg hrequired]
      exact h
  · exact h
  · exact hnested _ _ _ _ _ h
  · exact foldlM_mono (fun x m y => hnested _ m f x y) _ h
  · exact serializeEntries_mono (fun m x y => hnested _ m f x y) _ h
  · split at h
    · rename_i henum
      rw [if_pos henum]
      exact h
    · rename_i henum
      rw [if_neg henum]
      split at h
      · exact h
      · split at h
        · exact foldlM_mono (fun x m y => hnested _ m f x y) _ h
        · exact h

end

/-- More results for the message are more results for its field. -/
theorem serializeMessageField_mono
    {serialize serialize' : MessageType → Message → SerializerBase σ → Option (SerializerBase σ)}
    (hserialize : ∀ t m x y, serialize t m x = some y → serialize' t m x = some y)
    {t : MessageType} {m : Message} {f : FieldInfo} {x y : SerializerBase σ}
    (h : serializeMessageField b serialize t m f x = some y) :
    serializeMessageField b serialize' t m f x = some y := by
  unfold serializeMessageField at h ⊢
  split at h
  · exact h
  · obtain ⟨z, hz, rfl⟩ := Option.map_eq_some_iff.mp h
    exact Option.map_eq_some_iff.mpr ⟨z, hserialize _ _ _ _ hz, rfl⟩

/-- An encoder that returned returns the same with more fuel. -/
theorem serializeMessage_mono {fuel : Nat} {t : MessageType} {m : Message} {x y : SerializerBase σ}
    (h : serializeMessage b S order fuel t m x = some y) :
    serializeMessage b S order (fuel + 1) t m x = some y := by
  induction fuel generalizing t m x y with
  | zero => cases h
  | succ fuel ih =>
    rw [serializeMessage] at h ⊢
    refine foldlM_mono (fun x p y hstep => serializeProperty_mono ?_ hstep) _ h
    exact fun t m f x y hfield => serializeMessageField_mono (fun t m x y => ih) hfield

/-! ## Enough fuel -/

section

variable {types : List Nat}

/-- With the given default messages around it a step returns within the same ones. -/
def ReturnsWithin (types : List Nat) (write : SerializerBase σ → Option (SerializerBase σ)) : Prop :=
  ∀ x, x.defaultMessageTypes = types → ∃ y, write x = some y ∧ y.defaultMessageTypes = types

/-- A loop whose steps all return returns. -/
theorem foldlM_returns {α : Type} {write : SerializerBase σ → α → Option (SerializerBase σ)}
    (l : List α) (hwrite : ∀ a ∈ l, ReturnsWithin types fun x => write x a) :
    ReturnsWithin types (l.foldlM write) := by
  induction l with
  | nil => exact fun x hx => ⟨x, rfl, hx⟩
  | cons a l ih =>
    intro x hx
    obtain ⟨z, hz, hztypes⟩ := hwrite a List.mem_cons_self x hx
    obtain ⟨y, hy, hytypes⟩ := ih (fun a ha => hwrite a (List.mem_cons_of_mem _ ha)) z hztypes
    exact ⟨y, List.foldlM_cons.trans (Option.bind_eq_some_iff.mpr ⟨z, hz, hy⟩), hytypes⟩

/-- The entry object for an entry of a map, or with an equal scalar of an earlier one. -/
def IsEntryOf (entries : List (Scalar × Value)) (entry : Message) : Prop :=
  ∃ e ∈ entries, entry.member (.field 0) = .scalar e.1 ∧
    (entry.member (.field 1) = e.2 ∨ (entry.member (.field 1)).sameScalar e.2 = true)

/-- The entry object filled with an entry is one of the map. -/
theorem isEntryOf_nextEntry {entries : List (Scalar × Value)} (entry : Message) {e : Scalar × Value}
    (he : e ∈ entries) : IsEntryOf entries (entry.nextEntry e.1 e.2) := by
  have hne : Member.field 0 ≠ Member.field 1 := by simp
  refine ⟨e, he, ?_⟩
  unfold Message.nextEntry
  simp only
  split
  · rename_i hequal
    exact ⟨Message.member_setMember_self _ _ _, .inr hequal⟩
  · refine ⟨?_, .inl (Message.member_setMember_self _ _ _)⟩
    rw [Message.member_setMember_of_ne _ _ hne, Message.member_setMember_self]

/-- A map whose entries all return returns. -/
theorem serializeEntries_returns
    {write : Message → SerializerBase σ → Option (SerializerBase σ)}
    {all : List (Scalar × Value)} (hwrite : ∀ entry, IsEntryOf all entry →
      ReturnsWithin types (write entry)) (entries : List (Scalar × Value)) (hall : entries ⊆ all)
    (entry : Message) : ReturnsWithin types (serializeEntries write entry entries) := by
  induction entries generalizing entry with
  | nil => exact fun x hx => ⟨x, rfl, hx⟩
  | cons e entries ih =>
    obtain ⟨he, hrest⟩ := List.cons_subset.mp hall
    intro x hx
    obtain ⟨z, hz, hztypes⟩ := hwrite _ (isEntryOf_nextEntry entry he) x hx
    obtain ⟨y, hy, hytypes⟩ := ih hrest (entry.nextEntry e.1 e.2) z hztypes
    exact ⟨y, Option.bind_eq_some_iff.mpr ⟨z, hz, hy⟩, hytypes⟩

variable {nested : MessageType → Message → FieldInfo → SerializerBase σ →
  Option (SerializerBase σ)}

/-- A property is written if the messages it is written as are. -/
theorem serializeProperty_returns {f : FieldInfo} {value : Value}
    (hmessages : ∀ p ∈ writtenMessages S f value, ReturnsWithin types (nested p.1 p.2 f))
    (hentries : ∀ key v entries entry, f.type = .hash key v → value = .hash entries →
      IsEntryOf entries entry → ReturnsWithin types (nested (.mapEntry key v) entry f))
    (hdefault : ∀ t, f.type = .message t → f.fieldFlags.required = true → t ∉ types →
      ReturnsWithin (types ++ [t]) (nested (.named t) (S.defaultMessage (.named t)) f)) :
    ReturnsWithin types (serializeProperty b S order nested f value) := by
  intro x hx
  unfold serializeProperty
  split
  · rename_i t htype
    split
    · rename_i hrequired
      unfold serializeDefaultMessageField
      split
      · exact ⟨x, rfl, hx⟩
      · rename_i hmem
        rw [hx] at hmem ⊢
        obtain ⟨y, hy, hytypes⟩ := hdefault t htype hrequired hmem
          { x with defaultMessageTypes := types ++ [t] } rfl
        exact ⟨_, Option.map_eq_some_iff.mpr ⟨y, hy, rfl⟩, by simp [hytypes]⟩
    · exact ⟨x, rfl, hx⟩
  · exact ⟨x, rfl, hx⟩
  · rename_i t m
    exact hmessages (.named t, m) (by simp [writtenMessages]) x hx
  · rename_i t ms
    refine foldlM_returns ms (fun m hm => ?_) x hx
    exact hmessages (.named t, m) (by simpa [writtenMessages] using hm)
  · rename_i key v entries htype
    exact serializeEntries_returns (fun entry hentry => hentries key v entries entry htype rfl hentry) _
      (order.entries_perm entries).subset _ x hx
  · rename_i type value _ _ _ _ _
    split
    · exact ⟨_, rfl, hx⟩
    · split
      · exact ⟨_, rfl, hx⟩
      · split
        · rename_i handler _ content hhandler _ _ _ _ _ _
          refine foldlM_returns _ (fun m hm => ?_) _ hx
          refine hmessages (handler.proxy, m) ?_
          simp only [writtenMessages, hhandler]
          exact List.mem_map_of_mem hm
        · exact ⟨_, rfl, hx⟩

/-- A message field returns when its message does. -/
theorem serializeMessageField_returns
    {serialize : MessageType → Message → SerializerBase σ → Option (SerializerBase σ)}
    {t : MessageType} {m : Message} (h : ReturnsWithin types (serialize t m)) (f : FieldInfo) :
    ReturnsWithin types (serializeMessageField b serialize t m f) := by
  intro x hx
  unfold serializeMessageField
  split
  · exact ⟨_, rfl, hx⟩
  · obtain ⟨y, hy, hytypes⟩ := h { x with state := b.serializeMessageFieldBegin x.state } hx
    exact ⟨_, Option.map_eq_some_iff.mpr ⟨y, hy, rfl⟩, hytypes⟩

/-- A message that is made of some others: one of them, or a new one without a value of a type with a
handler, the messages within which are made of them. -/
inductive MadeOf (content : List Message) : Message → Prop where
  | held {m : Message} (h : m ∈ content) : MadeOf content m
  | new {m : Message} (hvalues : ∀ x k values, m.member x ≠ .custom k values)
      (honeofs : ∀ x n k values, m.member x ≠ .oneof n (.custom k values))
      (h : ∀ x sub, (m.member x).Contains sub → MadeOf content sub) : MadeOf content m

/-- Handlers write what is made of the messages that their values consist of. -/
def HandlersWriteContent (S : Schema) : Prop :=
  ∀ k handler, S.findHandler k = some handler → ∀ content, ∀ m ∈ handler.objects content,
    MadeOf content m

variable {bound : Finset Nat}

/-- The types of required messages are among finitely many. -/
def RequiredTypesWithin (S : Schema) (bound : Finset Nat) : Prop :=
  ∀ t, ∀ f ∈ (S.message t).fields, ∀ t', f.type = .message t' → f.fieldFlags.required = true →
    t' ∈ bound

/-- A handler of a type is one that the schema has. -/
theorem handlerOf_eq_some {type : PropertyType} {handler : Handler}
    (h : S.handlerOf type = some handler) : ∃ k, S.findHandler k = some handler := by
  unfold Schema.handlerOf at h
  split at h
  · exact ⟨_, h⟩
  · cases h

/-- A value is written as the messages within it, or as those that the handler of its type makes. -/
theorem writtenMessages_cases {f : FieldInfo} {value : Value} {p : MessageType × Message}
    (h : p ∈ writtenMessages S f value) :
    value.Contains p.2 ∨ ∃ k content handler, value = .custom k content ∧
      S.handlerOf f.type = some handler ∧ p.2 ∈ handler.objects content := by
  unfold writtenMessages at h
  split at h
  · obtain rfl := List.mem_singleton.mp h
    exact .inl (.message _ _)
  · obtain ⟨m, hm, rfl⟩ := List.mem_map.mp h
    exact .inl (.messages hm)
  · split at h
    · rename_i hhandler
      obtain ⟨m, hm, rfl⟩ := List.mem_map.mp h
      exact .inr ⟨_, _, _, rfl, hhandler, hm⟩
    · cases h
  · cases h

/-- A value with a handler is that of a member. -/
theorem member_of_messageProperty_custom {m : Message} {i : Nat} {f : FieldInfo} {k : Nat}
    {content : List Message} (h : m.messageProperty i f = .custom k content) :
    ∃ x, m.member x = .custom k content ∨ ∃ n, m.member x = .oneof n (.custom k content) := by
  unfold Message.messageProperty at h
  split at h
  · rename_i j hpresence
    refine ⟨.oneof j, .inr ?_⟩
    unfold Message.oneofState at h
    split at h
    · rename_i n v hmember
      split at h
      · exact ⟨n, hmember.trans (congrArg (Value.oneof n) h)⟩
      · cases h
    · split at h <;> cases h
  · exact ⟨.field i, .inl h⟩

/-- The type of a required message field is within the bound. -/
theorem mem_bound_of_required (hbound : RequiredTypesWithin S bound) {t : MessageType}
    {f : FieldInfo} (hf : f ∈ (S.propertyOrdering t).fields) {t' : Nat} (htype : f.type = .message t')
    (hrequired : f.fieldFlags.required = true) : t' ∈ bound := by
  cases t with
  | named t => exact hbound t f hf t' htype hrequired
  | mapEntry key value =>
    simp only [Schema.propertyOrdering, MessageDescriptor.mapEntry, List.mem_cons, List.not_mem_nil,
      or_false] at hf
    rcases hf with rfl | rfl <;> cases hrequired

/-- A further default message leaves fewer types. -/
theorem card_types_append {types : List Nat} {t' : Nat} (hmem : t' ∈ bound) (hnew : t' ∉ types) :
    (bound \ (types ++ [t']).toFinset).card < (bound \ types.toFinset).card := by
  refine Finset.card_lt_card ⟨Finset.sdiff_subset_sdiff subset_rfl (by simp), fun hsubset => ?_⟩
  have hrest := hsubset (Finset.mem_sdiff.mpr ⟨hmem, by simpa using hnew⟩)
  simp at hrest

/-- One level of a message, with the messages of the next level written. -/
theorem serializeMessage_returns_succ {fuel : Nat} {t : MessageType} {m : Message}
    (h : ∀ p ∈ (S.propertyOrdering t).fields.zipIdx, ReturnsWithin types
      (serializeProperty b S order (serializeMessageField b (serializeMessage b S order fuel)) p.1
        (m.messageProperty p.2 p.1))) :
    ReturnsWithin types (serializeMessage b S order (fuel + 1) t m) :=
  foldlM_returns _ h

variable (b S order bound) in
/-- With enough fuel a message is written, whatever the default messages around it, where at most so
many types are left for others. -/
def EventuallyReturns (left : Nat) (t : MessageType) (m : Message) : Prop :=
  ∀ᶠ fuel in atTop, ∀ types : List Nat, (bound \ types.toFinset).card ≤ left →
    ReturnsWithin types (serializeMessage b S order fuel t m)

/-- What holds from some fuel on holds one unit later as well. -/
theorem eventually_pred {p : Nat → Prop} (h : ∀ᶠ n in atTop, p n) :
    ∀ᶠ n in atTop, ∃ k, n = k + 1 ∧ p k := by
  obtain ⟨n, hn⟩ := eventually_atTop.mp h
  exact eventually_atTop.mpr ⟨n + 1, fun k hk => ⟨k - 1, by omega, hn _ (by omega)⟩⟩

/-- What holds from some fuel on of each member holds from some fuel on of the list. -/
theorem eventually_list {α : Type} {p : α → Nat → Prop} (l : List α)
    (h : ∀ a ∈ l, ∀ᶠ n in atTop, p a n) : ∀ᶠ n in atTop, ∀ a ∈ l, p a n :=
  (eventually_all_finite (List.finite_toSet l)).mpr h

/-- The field a value of a map is written as, with any number. -/
theorem entry_fields {key : ScalarKind} {value : MapValue} {p : FieldInfo × Nat}
    (hp : p ∈ (S.propertyOrdering (.mapEntry key value)).fields.zipIdx) :
    (p.2 = 0 ∨ p.2 = 1) ∧ p.1.presence = .mapEntry ∧ p.1.type.isMap = false ∧
      S.handlerOf p.1.type = none := by
  simp only [Schema.propertyOrdering, MessageDescriptor.mapEntry, List.zipIdx_cons, List.zipIdx_nil,
    List.mem_cons, List.not_mem_nil, or_false] at hp
  rcases hp with rfl | rfl
  · exact ⟨.inl rfl, rfl, rfl, rfl⟩
  · exact ⟨.inr rfl, rfl, by cases value <;> rfl, by cases value <;> rfl⟩

/-- Equal scalars are not messages. -/
theorem writtenMessages_of_sameScalar {f : FieldInfo} {v w : Value} (h : v.sameScalar w = true) :
    writtenMessages S f v = [] := by
  cases v <;> cases w <;> first | rfl | cases h

/-- The entries of a map are written if the messages among its values are. -/
theorem entries_eventually {left : Nat} {key : ScalarKind} {value : MapValue}
    {entries : List (Scalar × Value)} (h : ∀ sub, (Value.hash entries).Contains sub →
      ∀ t', EventuallyReturns b S order bound left t' sub) :
    ∀ᶠ fuel in atTop, ∀ entry, IsEntryOf entries entry → ∀ types : List Nat,
      (bound \ types.toFinset).card ≤ left →
        ReturnsWithin types (serializeMessage b S order fuel (.mapEntry key value) entry) := by
  have hvalues : ∀ᶠ fuel in atTop, ∀ e ∈ entries,
      ∀ p ∈ (S.propertyOrdering (.mapEntry key value)).fields.zipIdx,
      ∀ q ∈ writtenMessages S p.1 e.2, ∀ types : List Nat, (bound \ types.toFinset).card ≤ left →
        ReturnsWithin types (serializeMessage b S order fuel q.1 q.2) := by
    refine eventually_list _ fun e he => eventually_list _ fun p hp => eventually_list _ fun q hq => ?_
    rcases writtenMessages_cases hq with hcontains | ⟨k, content, handler, -, hhandler, -⟩
    · exact h q.2 (.entry he hcontains) q.1
    · rw [(entry_fields hp).2.2.2] at hhandler
      cases hhandler
  filter_upwards [eventually_pred hvalues]
  rintro _ ⟨fuel, rfl, hfuel⟩ entry ⟨e, he, hkey, hvalue⟩ types hleft
  refine serializeMessage_returns_succ fun p hp => ?_
  obtain ⟨hindex, hpresence, hmap, -⟩ := entry_fields hp
  have hproperty : entry.messageProperty p.2 p.1 = entry.member (.field p.2) := by
    simp [Message.messageProperty, hpresence]
  refine serializeProperty_returns (fun q hq => ?_) ?_ ?_
  · refine serializeMessageField_returns (hfuel e he p hp q ?_ types hleft) _
    rw [hproperty] at hq
    rcases hindex with hindex | hindex <;> rw [hindex] at hq
    · rw [hkey] at hq
      cases hq
    · rcases hvalue with heq | hequal
      · rwa [heq] at hq
      · rw [writtenMessages_of_sameScalar hequal] at hq
        cases hq
  · intro key' value' _ _ htype
    rw [htype] at hmap
    cases hmap
  · intro t' _ hrequired
    simp [FieldInfo.fieldFlags, hpresence, FieldInfo.getFlagForType] at hrequired

variable (b S order bound) in
/-- Where a type fewer is left every message is written. -/
def ReturnsWithFewer (left : Nat) : Prop :=
  ∀ fewer < left, ∀ t m, EventuallyReturns b S order bound fewer t m

/-- A default message is begun where a type fewer is left behind it. -/
theorem defaults_eventually {left : Nat} (hfewer : ReturnsWithFewer b S order bound left) :
    ∀ᶠ fuel in atTop, ∀ t' ∈ bound, ∀ types : List Nat, (bound \ types.toFinset).card < left →
      ReturnsWithin types
        (serializeMessage b S order fuel (.named t') (S.defaultMessage (.named t'))) := by
  refine (eventually_all_finset bound).mpr fun t' _ => ?_
  cases left with
  | zero => exact .of_forall fun _ _ h => absurd h (Nat.not_lt_zero _)
  | succ left =>
    filter_upwards [hfewer left (Nat.lt_succ_self left) (.named t') (S.defaultMessage (.named t'))]
    exact fun fuel hfuel types hleft => hfuel types (Nat.le_of_lt_succ hleft)

/-- A message is written if those within it are, and those that handlers make of its values. -/
theorem eventuallyReturns_of_written (hbound : RequiredTypesWithin S bound) {left : Nat}
    (hfewer : ReturnsWithFewer b S order bound left) (t : MessageType) (m : Message)
    (h : ∀ x sub, (m.member x).Contains sub → ∀ t', EventuallyReturns b S order bound left t' sub)
    (hobjects : ∀ i f k content handler, m.messageProperty i f = .custom k content →
      S.handlerOf f.type = some handler → ∀ object ∈ handler.objects content, ∀ t',
        EventuallyReturns b S order bound left t' object) :
    EventuallyReturns b S order bound left t m := by
  have hmessages : ∀ᶠ fuel in atTop, ∀ p ∈ (S.propertyOrdering t).fields.zipIdx,
      ∀ q ∈ writtenMessages S p.1 (m.messageProperty p.2 p.1), ∀ types : List Nat,
        (bound \ types.toFinset).card ≤ left →
          ReturnsWithin types (serializeMessage b S order fuel q.1 q.2) := by
    refine eventually_list _ fun p _ => eventually_list _ fun q hq => ?_
    rcases writtenMessages_cases hq with hcontains | ⟨k, content, handler, hvalue, hhandler, hobject⟩
    · obtain ⟨x, hx⟩ := contains_messageProperty hcontains
      exact h x q.2 hx q.1
    · exact hobjects p.2 p.1 k content handler hvalue hhandler q.2 hobject q.1
  have hentries : ∀ᶠ fuel in atTop, ∀ p ∈ (S.propertyOrdering t).fields.zipIdx,
      ∀ key value entries entry, p.1.type = .hash key value →
        m.messageProperty p.2 p.1 = .hash entries → IsEntryOf entries entry → ∀ types : List Nat,
        (bound \ types.toFinset).card ≤ left →
          ReturnsWithin types (serializeMessage b S order fuel (.mapEntry key value) entry) := by
    refine eventually_list _ fun p _ => ?_
    cases htype : p.1.type with
    | hash key value =>
      cases hproperty : m.messageProperty p.2 p.1 with
      | hash entries =>
        have hall := @entries_eventually _ b S order bound left key value entries fun sub hsub => by
          rw [← hproperty] at hsub
          obtain ⟨x, hx⟩ := contains_messageProperty hsub
          exact h x sub hx
        filter_upwards [hall] with fuel hfuel
        rintro _ _ _ entry ⟨⟩ ⟨⟩ hentry
        exact hfuel entry hentry
      | _ => exact .of_forall fun _ _ _ _ _ _ hvalue => (by cases hvalue)
    | _ => exact .of_forall fun _ _ _ _ _ htype => (by cases htype)
  filter_upwards [eventually_pred (hmessages.and (hentries.and (defaults_eventually hfewer)))]
  rintro _ ⟨fuel, rfl, hfields, hmaps, hdefaults⟩ types hleft
  refine serializeMessage_returns_succ fun p hp => serializeProperty_returns ?_ ?_ ?_
  · exact fun q hq => serializeMessageField_returns (hfields p hp q hq types hleft) _
  · exact fun key value entries entry htype hvalue hentry => serializeMessageField_returns
      (hmaps p hp key value entries entry htype hvalue hentry types hleft) _
  · intro t' htype hrequired hnew
    have hmem := mem_bound_of_required hbound (List.fst_mem_of_mem_zipIdx hp) htype hrequired
    exact serializeMessageField_returns
      (hdefaults t' hmem _ (Nat.lt_of_lt_of_le (card_types_append hmem hnew) hleft)) _

/-- A message that is made of others is written if they are. -/
theorem MadeOf.eventuallyReturns (hbound : RequiredTypesWithin S bound) {left : Nat}
    (hfewer : ReturnsWithFewer b S order bound left) {content : List Message}
    (hcontent : ∀ m ∈ content, ∀ t, EventuallyReturns b S order bound left t m) {m : Message}
    (h : MadeOf content m) (t : MessageType) : EventuallyReturns b S order bound left t m := by
  induction h generalizing t with
  | held h => exact hcontent _ h t
  | new hvalues honeofs _ ih =>
    refine eventuallyReturns_of_written hbound hfewer t _ (fun x sub hsub t' => ih x sub hsub t') ?_
    intro i f k values handler hvalue
    obtain ⟨x, hmember | ⟨n, hmember⟩⟩ := member_of_messageProperty_custom hvalue
    · exact absurd hmember (hvalues x k values)
    · exact absurd hmember (honeofs x n k values)

/-- Every encoder returns for every message. -/
theorem eventuallyReturns (hobjects : HandlersWriteContent S) (hbound : RequiredTypesWithin S bound)
    (left : Nat) (t : MessageType) (m : Message) : EventuallyReturns b S order bound left t m := by
  induction left using Nat.strong_induction_on generalizing t m with
  | h left hfewer =>
    induction m using Message.induction generalizing t with
    | h m ih =>
      have hcontained (x : Member) (sub : Message) (hsub : (m.member x).Contains sub)
          (t' : MessageType) := ih x sub hsub t'
      refine eventuallyReturns_of_written hbound hfewer t m hcontained ?_
      intro i f k content handler hvalue hhandler object hobject t'
      obtain ⟨k', hk'⟩ := handlerOf_eq_some hhandler
      refine (hobjects k' handler hk' content object hobject).eventuallyReturns hbound hfewer ?_ t'
      intro sub hsub
      obtain ⟨x, hmember | ⟨n, hmember⟩⟩ := member_of_messageProperty_custom hvalue
      · exact hcontained x sub (by rw [hmember]; exact .custom hsub)
      · exact hcontained x sub (by rw [hmember]; exact .oneof (.custom hsub))

end

/-- Every encoder returns for every message and every hash order, if the types of required messages
are finitely many and handlers write what is made of their values: from some amount of fuel on the
result is always the same, and the default messages that were begun are ended. -/
theorem serializeMessage_returns (b : SerializerFormat σ) (S : Schema) (order : HashOrder)
    (bound : Finset Nat) (hbound : RequiredTypesWithin S bound) (hobjects : HandlersWriteContent S)
    (t : MessageType) (m : Message) :
    ∃ n, ∀ x : SerializerBase σ, ∃ y, y.defaultMessageTypes = x.defaultMessageTypes ∧
      ∀ fuel, n ≤ fuel → serializeMessage b S order fuel t m x = some y := by
  obtain ⟨n, hn⟩ := eventually_atTop.mp
    (@eventuallyReturns σ b S order bound hobjects hbound bound.card t m)
  refine ⟨n, fun x => ?_⟩
  obtain ⟨y, hy, htypes⟩ := hn n (Nat.le_refl n) x.defaultMessageTypes
    (Finset.card_le_card Finset.sdiff_subset) x rfl
  refine ⟨y, htypes, fun fuel hfuel => ?_⟩
  induction fuel, hfuel using Nat.le_induction with
  | base => exact hy
  | succ fuel _ ih => exact serializeMessage_mono ih

/-! ## Handlers of the library -/

/-- A value without messages and without a handler. -/
def Value.IsPlain : Value → Prop
  | .null | .scalar _ | .scalars _ _ | .oneof _ .null => True
  | _ => False

/-- A message with such members is made of nothing. -/
theorem madeOf_of_isPlain {content : List Message} {m : Message} (h : ∀ x, (m.member x).IsPlain) :
    MadeOf content m := by
  refine .new (fun x k values hx => ?_) (fun x n k values hx => ?_) fun x sub hsub => ?_
  · have hplain := h x
    rw [hx] at hplain
    exact hplain.elim
  · have hplain := h x
    rw [hx] at hplain
    exact hplain.elim
  · have hplain := h x
    cases hx : m.member x with
    | oneof n v =>
      rw [hx] at hsub hplain
      cases hsub with
      | oneof hsub => cases hsub <;> exact hplain.elim
    | _ =>
      rw [hx] at hsub hplain
      first
        | exact hplain.elim
        | cases hsub

/-- The message that an `Any` is written as. -/
theorem madeOf_realAny (content : List Message) (any : WellKnown.Any) :
    MadeOf content any.realAny := by
  refine madeOf_of_isPlain fun x => ?_
  cases x with
  | oneof j => exact trivial
  | field i =>
    match i with
    | 0 => exact trivial
    | 1 => exact trivial
    | _ + 2 => exact trivial

/-- The handlers of `Any` write what is made of nothing. -/
theorem madeOf_any {a : Nat} {handler : Handler}
    (hhandler : handler = WellKnown.Any.handler a ∨ handler = WellKnown.Any.listHandler a)
    {content : List Message} {m : Message} (hm : m ∈ handler.objects content) :
    MadeOf content m := by
  rcases hhandler with rfl | rfl
  · simp only [WellKnown.Any.handler, WellKnown.Any.serializerProxy] at hm
    split at hm
    · cases hm
    · obtain rfl := List.mem_singleton.mp hm
      exact madeOf_realAny _ _
  · obtain ⟨object, -, rfl⟩ := List.mem_map.mp hm
    exact madeOf_realAny _ _

/-! ## A cycle of required messages -/

/-- Two message types that require each other, and an `Any`. -/
def cyclicSchema : Schema where
  message
    | 0 => ⟨"Hen", [
        { fieldNumber := 1, jsonName := "egg", type := .message 1, presence := .required },
        { fieldNumber := 2, jsonName := "nest", type := .custom 0 false }],
        by decide, by decide, by decide⟩
    | 1 => ⟨"Egg", [{ fieldNumber := 1, jsonName := "hen", type := .message 0, presence := .required }],
        by decide, by decide, by decide⟩
    | _ => WellKnown.anyDescriptor
  enumKeys _ := []
  findHandler _ := some (WellKnown.Any.handler 2)
  typeName _ := ""

/-- The sample's required types are within its two types. -/
theorem requiredTypesWithin_cyclic : RequiredTypesWithin cyclicSchema {0, 1} := by
  intro t f hf t' htype _
  match t with
  | 0 =>
    rcases List.mem_cons.mp hf with rfl | hf
    · cases htype
      decide
    · obtain rfl := List.mem_singleton.mp hf
      cases htype
  | 1 =>
    obtain rfl := List.mem_singleton.mp hf
    cases htype
    decide
  | _ + 2 =>
    rcases List.mem_cons.mp hf with rfl | hf
    · cases htype
    · obtain rfl := List.mem_singleton.mp hf
      cases htype

/-- A new message of the cyclic sample is written. -/
theorem serializeMessage_returns_cyclic :
    ∃ n, ∀ x : SerializerBase Binary.SerializerImpl, ∃ y,
      y.defaultMessageTypes = x.defaultMessageTypes ∧ ∀ fuel, n ≤ fuel →
        serializeMessage (Binary.serializerFormat .ofInsertion true) cyclicSchema .ofInsertion fuel
          (.named 0) (cyclicSchema.defaultMessage (.named 0)) x = some y :=
  serializeMessage_returns _ _ _ {0, 1} requiredTypesWithin_cyclic
    (fun _ _ h _ _ hm => madeOf_any (a := 2) (.inl (Option.some.inj h).symm) hm) _ _

end

end QtGrpc.Protobuf
