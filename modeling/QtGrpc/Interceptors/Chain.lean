import Mathlib.Data.List.Basic

/-!
# Interceptor chains

`QGrpcInterceptorChain`: the interceptors of a channel in the order in which they were added. An
interceptor implements one or more interfaces, and is stored as an untyped pointer with a pointer
to each of its interfaces. The chain keeps the capabilities of all of its interceptors combined.
-/

namespace QtGrpc.Interceptors

/-- `QtGrpc::InterceptorCapability`. -/
inductive InterceptorCapability where
  | start | initialMetadata | messageReceived | writeMessage | writesDone | trailingMetadata
  | finished | cancel
deriving DecidableEq, Repr

/-- The bit of a capability. -/
def InterceptorCapability.value : InterceptorCapability → BitVec 64
  | .start => 0x01
  | .initialMetadata => 0x02
  | .messageReceived => 0x04
  | .writeMessage => 0x08
  | .writesDone => 0x10
  | .trailingMetadata => 0x20
  | .finished => 0x40
  | .cancel => 0x80

/-- `InterceptorTypes`: each capability has one interface, and they stand in this order. -/
def interceptorTypes : List InterceptorCapability :=
  [.start, .initialMetadata, .messageReceived, .writeMessage, .writesDone, .trailingMetadata,
    .finished, .cancel]

/-- An interceptor as it is handed over: the object and the interfaces its type derives from. -/
structure Interceptor (α : Type) where
  object : α
  implements : InterceptorCapability → Bool

/-- A pointer to one interface of an object. -/
structure InterfacePointer (α : Type) where
  object : α
  type : InterceptorCapability
deriving DecidableEq

/-- `InterceptorCapabilityBinding`. -/
structure InterceptorCapabilityBinding (α : Type) where
  capability : InterceptorCapability
  interface : InterfacePointer α
deriving DecidableEq

variable {α : Type}

/-- `static_cast<Interface *>` of an interceptor. -/
def Interceptor.toInterface (i : Interceptor α) (type : InterceptorCapability) :
    InterfacePointer α :=
  ⟨i.object, type⟩

/-- `InterceptorCapabilityBinding::extractFrom`. -/
def extractFrom (i : Interceptor α) : List (InterceptorCapabilityBinding α) :=
  interceptorTypes.filterMap fun type =>
    if i.implements type then some ⟨type, i.toInterface type⟩ else none

/-- `QtGrpc::InterceptorCapabilities`. -/
abbrev InterceptorCapabilities := BitVec 64

/-- `QFlags::setFlag`. -/
def setFlag (bits : InterceptorCapabilities) (c : InterceptorCapability) : InterceptorCapabilities :=
  bits ||| c.value

/-- `QFlags::testFlag`. -/
def testFlag (bits : InterceptorCapabilities) (c : InterceptorCapability) : Bool :=
  if c.value = 0 then bits = 0 else bits &&& c.value = c.value

/-- `QGrpcInterceptorChainPrivate::Entry`. -/
structure Entry (α : Type) where
  storage : α
  /-- The chain owns the interceptor. -/
  deleter : Bool
  bindings : List (InterceptorCapabilityBinding α)
  capabilities : InterceptorCapabilities
deriving DecidableEq

/-- The constructor of an entry. -/
def Entry.new (storage : α) (deleter : Bool) (bindings : List (InterceptorCapabilityBinding α)) :
    Entry α :=
  { storage, deleter, bindings,
    capabilities := bindings.foldl (fun bits binding => setFlag bits binding.capability) 0 }

/-- `QGrpcInterceptorChain`. -/
structure QGrpcInterceptorChain (α : Type) where
  combinedCapabilities : InterceptorCapabilities := 0
  interceptors : List (Entry α) := []
deriving DecidableEq

namespace QGrpcInterceptorChain

variable (chain : QGrpcInterceptorChain α)

/-- `QGrpcInterceptorChainPrivate::clear`. -/
def clear (_ : QGrpcInterceptorChain α) : QGrpcInterceptorChain α :=
  { combinedCapabilities := 0, interceptors := [] }

/-- `QGrpcInterceptorChainPrivate::add`. -/
def addImpl (interceptor : α) (deleter : Bool) (bindings : List (InterceptorCapabilityBinding α)) :
    Bool × QGrpcInterceptorChain α :=
  let e := Entry.new interceptor deleter bindings
  (true, { combinedCapabilities := chain.combinedCapabilities ||| e.capabilities,
           interceptors := chain.interceptors ++ [e] })

def hasHandlerFor (c : InterceptorCapability) : Bool := testFlag chain.combinedCapabilities c

/-- `addHelper`, for a pointer that owns its interceptor or not. -/
def add (owning : Bool) : Option (Interceptor α) → Bool × QGrpcInterceptorChain α
  | none => (false, chain)
  | some i =>
    let result := chain.addImpl i.object owning (extractFrom i)
    if result.1 then (true, result.2) else (false, chain)

/-- The additions of `setHelper` up to the first that fails. -/
def addEach (owning : Bool) :
    QGrpcInterceptorChain α → List (Option (Interceptor α)) → Bool × QGrpcInterceptorChain α
  | tmp, [] => (true, tmp)
  | tmp, p :: interceptors =>
    let result := tmp.add owning p
    if result.1 then addEach owning result.2 interceptors else (false, result.2)

/-- `setHelper`. -/
def set (owning : Bool) (interceptors : List (Option (Interceptor α))) :
    Bool × QGrpcInterceptorChain α :=
  if interceptors.any (·.isNone) then (false, chain)
  else
    let result := addEach owning {} interceptors
    if result.1 then (true, result.2) else (false, chain)

end QGrpcInterceptorChain

/-! ## Capabilities -/

/-- Every capability is among the types of interceptors. -/
theorem mem_interceptorTypes (c : InterceptorCapability) : c ∈ interceptorTypes := by
  cases c <;> decide

/-- No type of interceptor is listed twice. -/
theorem interceptorTypes_nodup : interceptorTypes.Nodup := by decide

/-- `capabilityToIndex`. -/
def capabilityToIndex (c : InterceptorCapability) : Nat := c.value.ctz.toNat

/-- The value of a capability is the bit at its index. -/
theorem value_eq_twoPow (c : InterceptorCapability) :
    c.value = BitVec.twoPow 64 (capabilityToIndex c) ∧ capabilityToIndex c < interceptorTypes.length := by
  cases c <;> decide +kernel

/-- Capabilities with the same value are the same. -/
theorem value_injective {c c' : InterceptorCapability} (h : c.value = c'.value) : c = c' := by
  revert h
  cases c <;> cases c' <;> decide

/-- Capabilities with the same index are the same. -/
theorem capabilityToIndex_injective {c c' : InterceptorCapability}
    (h : capabilityToIndex c = capabilityToIndex c') : c = c' := by
  apply value_injective
  rw [(value_eq_twoPow c).1, (value_eq_twoPow c').1, h]

/-- A flag is a bit of its own. -/
theorem testFlag_eq_getLsbD (bits : InterceptorCapabilities) (c : InterceptorCapability) :
    testFlag bits c = bits.getLsbD (capabilityToIndex c) := by
  obtain ⟨hvalue, hlt⟩ := value_eq_twoPow c
  have hlength : interceptorTypes.length = 8 := rfl
  have hbit : (BitVec.twoPow 64 (capabilityToIndex c)).getLsbD (capabilityToIndex c) = true := by
    rw [BitVec.getLsbD_twoPow]
    simp only [decide_true, Bool.and_true, decide_eq_true_eq]
    omega
  have hne : BitVec.twoPow 64 (capabilityToIndex c) ≠ 0 := by
    intro hzero
    rw [hzero, BitVec.ofNat_eq_ofNat, BitVec.getLsbD_zero] at hbit
    exact Bool.false_ne_true hbit
  rw [testFlag, hvalue, if_neg hne, BitVec.and_twoPow]
  cases bits.getLsbD (capabilityToIndex c) with
  | true => simp
  | false => simpa using Ne.symm hne

/-- No flag is set in the empty set. -/
theorem testFlag_zero (c : InterceptorCapability) : testFlag 0 c = false := by
  rw [testFlag_eq_getLsbD]
  exact BitVec.getLsbD_zero

/-- A flag is set in a union exactly when it is set in one of the two. -/
theorem testFlag_or (bits bits' : InterceptorCapabilities) (c : InterceptorCapability) :
    testFlag (bits ||| bits') c = (testFlag bits c || testFlag bits' c) := by
  rw [testFlag_eq_getLsbD, testFlag_eq_getLsbD, testFlag_eq_getLsbD, BitVec.getLsbD_or]

/-- The value of a capability has its own flag and no other. -/
theorem testFlag_value (c c' : InterceptorCapability) : testFlag c'.value c = (c == c') := by
  cases c <;> cases c' <;> decide

/-- Setting a flag adds that one only. -/
theorem testFlag_setFlag (bits : InterceptorCapabilities) (c c' : InterceptorCapability) :
    testFlag (setFlag bits c') c = (testFlag bits c || c == c') := by
  rw [setFlag, testFlag_or, testFlag_value]

/-- The flags of bindings are those of their capabilities. -/
theorem testFlag_foldl (bindings : List (InterceptorCapabilityBinding α))
    (bits : InterceptorCapabilities) (c : InterceptorCapability) :
    testFlag (bindings.foldl (fun bits binding => setFlag bits binding.capability) bits) c =
      (testFlag bits c || bindings.any fun binding => c == binding.capability) := by
  induction bindings generalizing bits with
  | nil => simp
  | cons binding bindings ih =>
    rw [List.foldl_cons, ih, testFlag_setFlag, List.any_cons, Bool.or_assoc]

/-! ## Bindings -/

/-- An interceptor is bound to the capabilities it implements. -/
theorem mem_extractFrom {i : Interceptor α} {binding : InterceptorCapabilityBinding α} :
    binding ∈ extractFrom i ↔
      i.implements binding.capability = true ∧
        binding.interface = i.toInterface binding.capability := by
  obtain ⟨capability, interface⟩ := binding
  simp only [extractFrom, List.mem_filterMap, Option.ite_none_right_eq_some, Option.some.injEq,
    InterceptorCapabilityBinding.mk.injEq]
  constructor
  · rintro ⟨type, -, himplements, rfl, rfl⟩
    exact ⟨himplements, rfl⟩
  · rintro ⟨himplements, rfl⟩
    exact ⟨capability, mem_interceptorTypes capability, himplements, rfl, rfl⟩

/-- Among the bindings of an interceptor there is at most one for a capability. -/
theorem filter_extractFrom (i : Interceptor α) (c : InterceptorCapability) :
    (extractFrom i).filter (fun binding => binding.capability = c) =
      if i.implements c then [⟨c, i.toInterface c⟩] else [] := by
  have hfilter : ∀ types : List InterceptorCapability, types.Nodup →
      (types.filterMap fun type =>
        if i.implements type then
          some (⟨type, i.toInterface type⟩ : InterceptorCapabilityBinding α) else none).filter
        (fun binding => binding.capability = c) =
      if c ∈ types ∧ i.implements c then [⟨c, i.toInterface c⟩] else [] := by
    intro types hnodup
    induction types with
    | nil => simp
    | cons type types ih =>
      obtain ⟨hnotin, htypes⟩ := List.nodup_cons.mp hnodup
      have hrest := ih htypes
      by_cases htype : type = c
      · subst htype
        rw [if_neg fun h => hnotin h.1] at hrest
        cases himplements : i.implements type <;> simp [himplements, hrest]
      · cases himplements : i.implements type <;>
          simp [himplements, hrest, htype, Ne.symm htype]
  rw [extractFrom, hfilter _ interceptorTypes_nodup]
  simp [mem_interceptorTypes]

/-- The capabilities of an entry. -/
theorem testFlag_entry (i : Interceptor α) (deleter : Bool) (c : InterceptorCapability) :
    testFlag (Entry.new i.object deleter (extractFrom i)).capabilities c = i.implements c := by
  rw [Entry.new, testFlag_foldl, testFlag_zero, Bool.false_or, Bool.eq_iff_iff, List.any_eq_true]
  constructor
  · rintro ⟨binding, hbinding, hc⟩
    rw [eq_of_beq hc]
    exact (mem_extractFrom.mp hbinding).1
  · intro himplements
    exact ⟨⟨c, i.toInterface c⟩, mem_extractFrom.mpr ⟨himplements, rfl⟩, by simp⟩

/-! ## Chains as lists -/

/-- A chain stands for a list of interceptors. -/
structure Represents (chain : QGrpcInterceptorChain α) (list : List (Interceptor α)) : Prop where
  bindings : chain.interceptors.map (·.bindings) = list.map extractFrom
  combined : ∀ c, testFlag chain.combinedCapabilities c = list.any (·.implements c)

namespace Represents

variable {chain : QGrpcInterceptorChain α} {list : List (Interceptor α)}

/-- The empty chain stands for the empty list. -/
theorem empty : Represents ({} : QGrpcInterceptorChain α) [] := ⟨rfl, testFlag_zero⟩

/-- The chain has a handler for a capability exactly when one of the interceptors has it. -/
theorem hasHandlerFor_eq (h : Represents chain list) (c : InterceptorCapability) :
    chain.hasHandlerFor c = list.any (·.implements c) :=
  h.combined c

/-- An interceptor is added behind the others. -/
theorem add_some (h : Represents chain list) (owning : Bool) (i : Interceptor α) :
    (chain.add owning (some i)).1 = true ∧
      Represents (chain.add owning (some i)).2 (list ++ [i]) := by
  refine ⟨rfl, ?_, ?_⟩
  · change (chain.interceptors ++ [_]).map _ = _
    rw [List.map_append, List.map_append, h.bindings]
    rfl
  · intro c
    change testFlag (chain.combinedCapabilities ||| _) c = _
    rw [testFlag_or, h.combined, testFlag_entry, List.any_append, List.any_cons, List.any_nil,
      Bool.or_false]

/-- Interceptors none of which is null are added one behind the other. -/
theorem addEach_some (h : Represents chain list) (owning : Bool) (added : List (Interceptor α)) :
    (QGrpcInterceptorChain.addEach owning chain (added.map some)).1 = true ∧
      Represents (QGrpcInterceptorChain.addEach owning chain (added.map some)).2
        (list ++ added) := by
  induction added generalizing chain list with
  | nil => exact ⟨rfl, by rwa [List.append_nil]⟩
  | cons i added ih =>
    obtain ⟨haccepted, hadded⟩ := h.add_some owning i
    have hrest := ih hadded
    rw [List.append_assoc] at hrest
    rw [List.map_cons, QGrpcInterceptorChain.addEach]
    simp only [haccepted, if_true]
    exact hrest

/-- A set of interceptors none of which is null takes the place of the chain. -/
theorem set_some (chain : QGrpcInterceptorChain α) (owning : Bool)
    (interceptors : List (Interceptor α)) :
    (chain.set owning (interceptors.map some)).1 = true ∧
      Represents (chain.set owning (interceptors.map some)).2 interceptors := by
  obtain ⟨haccepted, hadded⟩ := empty.addEach_some owning interceptors
  have hsome : (interceptors.map some).any (·.isNone) = false := by simp
  rw [QGrpcInterceptorChain.set, hsome]
  simp only [Bool.false_eq_true, if_false, haccepted, if_true]
  exact ⟨trivial, hadded⟩

end Represents

/-- A set with a null interceptor is rejected. -/
theorem QGrpcInterceptorChain.set_none (chain : QGrpcInterceptorChain α) (owning : Bool)
    {interceptors : List (Option (Interceptor α))} (h : interceptors.any (·.isNone) = true) :
    chain.set owning interceptors = (false, chain) := by
  rw [QGrpcInterceptorChain.set, if_pos h]

end QtGrpc.Interceptors
