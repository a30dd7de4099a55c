import QtGrpc.Interceptors.Chain

/-!
# The interceptor engine

`QGrpcInterceptorEngine` holds for each capability an array of untyped pointers to the interfaces
that handle it, built from the chain that is installed, while it answers from the combined
capabilities of the chain whether there is a handler. Both agree with the chain as a plain list of
interceptors, whatever was added, set, cleared and installed.
-/

namespace QtGrpc.Interceptors

/-- `InterceptionFlow`. -/
inductive InterceptionFlow where
  | outbound | inbound
deriving DecidableEq, Repr

/-- `InterceptorInfo::flow`. -/
def InterceptorCapability.flow : InterceptorCapability → InterceptionFlow
  | .start => .outbound
  | .initialMetadata => .inbound
  | .messageReceived => .inbound
  | .writeMessage => .outbound
  | .writesDone => .outbound
  | .trailingMetadata => .inbound
  | .finished => .inbound
  | .cancel => .outbound

/-- `QGrpcStartInterceptor::Continuation`. -/
inductive Continuation where
  | proceed | drop
deriving DecidableEq, Repr

variable {α σ : Type}

/-- `static_cast` of an untyped pointer; it has a meaning only for the interface it points to. -/
def InterfacePointer.cast (p : InterfacePointer α) (type : InterceptorCapability) : Option α :=
  if p.type = type then some p.object else none

/-- `QGrpcInterceptorEngine`. -/
structure QGrpcInterceptorEngine (α : Type) where
  capabilityHandlers : List (List (InterfacePointer α)) := List.replicate interceptorTypes.length []
  interceptorChain : QGrpcInterceptorChain α := {}
deriving DecidableEq

/-- `addInterceptor`. -/
def addInterceptor (handlers : List (List (InterfacePointer α)))
    (bindings : List (InterceptorCapabilityBinding α)) : List (List (InterfacePointer α)) :=
  bindings.foldl (fun handlers binding =>
    handlers.modify (capabilityToIndex binding.capability) (· ++ [binding.interface])) handlers

/-- The loop of `invoke`, with the arguments that the handlers change and the handlers it calls. -/
def callEach (type : InterceptorCapability) (method : α → σ → σ) :
    List (InterfacePointer α) → σ → Option (σ × List α)
  | [], arguments => some (arguments, [])
  | handler :: handlers, arguments =>
    (handler.cast type).bind fun iface =>
      (callEach type method handlers (method iface arguments)).map fun result =>
        (result.1, iface :: result.2)

/-- The loop of `onStart`. -/
def startEach (method : α → σ → Continuation × σ) :
    List (InterfacePointer α) → σ → Option (Continuation × σ × List α)
  | [], arguments => some (.proceed, arguments, [])
  | handler :: handlers, arguments =>
    (handler.cast .start).bind fun iface =>
      let result := method iface arguments
      if result.1 = .drop then some (.drop, result.2, [iface])
      else (startEach method handlers result.2).map fun rest =>
        (rest.1, rest.2.1, iface :: rest.2.2)

namespace QGrpcInterceptorEngine

variable (engine : QGrpcInterceptorEngine α)

def setInterceptorChain (chain : QGrpcInterceptorChain α) : QGrpcInterceptorEngine α :=
  let cleared := engine.capabilityHandlers.map fun _ => []
  { capabilityHandlers :=
      chain.interceptors.foldl (fun handlers i => addInterceptor handlers i.bindings) cleared
    interceptorChain := chain }

def hasHandlerFor (c : InterceptorCapability) : Bool := engine.interceptorChain.hasHandlerFor c

/-- `invoke`, for the interface of a capability. -/
def invoke (type : InterceptorCapability) (method : α → σ → σ) (arguments : σ) :
    Option (σ × List α) :=
  engine.capabilityHandlers[capabilityToIndex type]?.bind fun handlers =>
    match type.flow with
    | .outbound => callEach type method handlers arguments
    | .inbound => callEach type method handlers.reverse arguments

def onStart (method : α → σ → Continuation × σ) (arguments : σ) :
    Option (Continuation × σ × List α) :=
  engine.capabilityHandlers[capabilityToIndex .start]?.bind fun handlers =>
    startEach method handlers arguments

end QGrpcInterceptorEngine

/-! ## The arrays of handlers -/

/-- The bindings of a capability are put behind its handlers. -/
theorem addInterceptor_getElem? {handlers : List (List (InterfacePointer α))}
    {c : InterceptorCapability} {pointers : List (InterfacePointer α)}
    (h : handlers[capabilityToIndex c]? = some pointers)
    (bindings : List (InterceptorCapabilityBinding α)) :
    (addInterceptor handlers bindings)[capabilityToIndex c]? =
      some (pointers ++
        (bindings.filter fun binding => binding.capability = c).map (·.interface)) := by
  induction bindings generalizing handlers pointers with
  | nil => simpa [addInterceptor] using h
  | cons binding bindings ih =>
    rw [addInterceptor, List.foldl_cons]
    by_cases hc : binding.capability = c
    · have hmodified : (handlers.modify (capabilityToIndex binding.capability)
          (· ++ [binding.interface]))[capabilityToIndex c]? =
          some (pointers ++ [binding.interface]) := by
        rw [hc, List.getElem?_modify_eq, h]
        rfl
      refine (ih hmodified).trans ?_
      rw [List.filter_cons_of_pos (by simpa using hc)]
      simp
    · have hmodified : (handlers.modify (capabilityToIndex binding.capability)
          (· ++ [binding.interface]))[capabilityToIndex c]? = some pointers := by
        rw [List.getElem?_modify_ne _ _ fun heq => hc (capabilityToIndex_injective heq), h]
      refine (ih hmodified).trans ?_
      rw [List.filter_cons_of_neg (by simpa using hc)]

/-- The interfaces of the interceptors that have a capability. -/
def interfaces (list : List (Interceptor α)) (c : InterceptorCapability) :
    List (InterfacePointer α) :=
  (list.filter (·.implements c)).map (·.toInterface c)

/-- Adding interceptors one by one appends their interfaces. -/
theorem foldl_addInterceptor_getElem? {handlers : List (List (InterfacePointer α))}
    {c : InterceptorCapability} {pointers : List (InterfacePointer α)}
    (h : handlers[capabilityToIndex c]? = some pointers) (list : List (Interceptor α)) :
    ((list.map extractFrom).foldl addInterceptor handlers)[capabilityToIndex c]? =
      some (pointers ++ interfaces list c) := by
  induction list generalizing handlers pointers with
  | nil => simpa [interfaces] using h
  | cons i list ih =>
    have hadded := addInterceptor_getElem? h (extractFrom i)
    rw [filter_extractFrom] at hadded
    rw [List.map_cons, List.foldl_cons, ih hadded, interfaces, interfaces]
    cases himplements : i.implements c <;> simp [himplements]

/-- An engine stands for the list of interceptors that is installed. -/
structure Installed (engine : QGrpcInterceptorEngine α) (list : List (Interceptor α)) : Prop where
  handlers : ∀ c, engine.capabilityHandlers[capabilityToIndex c]? = some (interfaces list c)
  chain : Represents engine.interceptorChain list

/-- The engine without interceptors has none installed. -/
theorem Installed.empty : Installed ({} : QGrpcInterceptorEngine α) [] := by
  refine ⟨fun c => ?_, Represents.empty⟩
  change (List.replicate _ _)[_]? = _
  rw [List.getElem?_replicate, if_pos (value_eq_twoPow c).2]
  rfl

/-- Installing a chain replaces the handlers of the one before. -/
theorem Installed.setInterceptorChain {engine : QGrpcInterceptorEngine α}
    {list next : List (Interceptor α)} (h : Installed engine list) {chain : QGrpcInterceptorChain α}
    (hchain : Represents chain next) : Installed (engine.setInterceptorChain chain) next := by
  refine ⟨fun c => ?_, hchain⟩
  have hcleared : (engine.capabilityHandlers.map fun _ => ([] : List (InterfacePointer α)))[
      capabilityToIndex c]? = some [] := by
    rw [List.getElem?_map, h.handlers]
    rfl
  have hfold := foldl_addInterceptor_getElem? hcleared next
  rw [← hchain.bindings, List.foldl_map, List.nil_append] at hfold
  exact hfold

/-! ## Calling the handlers -/

/-- All pointers of a capability point to its interface. -/
theorem callEach_interfaces (c : InterceptorCapability) (method : α → σ → σ)
    (list : List (Interceptor α)) (arguments : σ) :
    callEach c method (list.map (·.toInterface c)) arguments =
      some (list.foldl (fun arguments i => method i.object arguments) arguments,
        list.map (·.object)) := by
  induction list generalizing arguments with
  | nil => rfl
  | cons i list ih =>
    have hcast : (i.toInterface c).cast c = some i.object := by
      rw [InterfacePointer.cast, Interceptor.toInterface, if_pos rfl]
    rw [List.map_cons, callEach, hcast, Option.bind_some, ih]
    rfl

/-- The interceptors that have a capability, in the order in which an event passes them. -/
def passed (list : List (Interceptor α)) (c : InterceptorCapability) : List (Interceptor α) :=
  match c.flow with
  | .outbound => list.filter (·.implements c)
  | .inbound => (list.filter (·.implements c)).reverse

/-- A method is called on the interceptors of its capability in order. -/
theorem Installed.invoke_eq {engine : QGrpcInterceptorEngine α} {list : List (Interceptor α)}
    (h : Installed engine list) (c : InterceptorCapability) (method : α → σ → σ) (arguments : σ) :
    engine.invoke c method arguments =
      some ((passed list c).foldl (fun arguments i => method i.object arguments) arguments,
        (passed list c).map (·.object)) := by
  rw [QGrpcInterceptorEngine.invoke, h.handlers, Option.bind_some, passed, interfaces]
  cases c.flow with
  | outbound => exact callEach_interfaces c method _ arguments
  | inbound =>
    simp only
    rw [← List.map_reverse]
    exact callEach_interfaces c method _ arguments

/-- What the interceptors that were called have made of the arguments. -/
def after (method : α → σ → Continuation × σ) (arguments : σ) (called : List α) : σ :=
  called.foldl (fun arguments object => (method object arguments).2) arguments

/-- The start of a call passes the interceptors one by one up to the first that drops it. -/
structure Starts (method : α → σ → Continuation × σ) (objects : List α) (arguments : σ)
    (result : Continuation × σ × List α) : Prop where
  called : ∃ rest, objects = result.2.2 ++ rest
  arguments_eq : result.2.1 = after method arguments result.2.2
  complete : result.1 = .proceed → result.2.2 = objects
  proceeded : ∀ before object rest, result.2.2 = before ++ object :: rest →
    rest ≠ [] ∨ result.1 = .proceed → (method object (after method arguments before)).1 = .proceed
  dropped : result.1 = .drop → ∃ before object, result.2.2 = before ++ [object] ∧
    (method object (after method arguments before)).1 = .drop

/-- Without interceptors the start proceeds. -/
theorem Starts.nil (method : α → σ → Continuation × σ) (arguments : σ) :
    Starts method [] arguments (.proceed, arguments, []) where
  called := ⟨[], rfl⟩
  arguments_eq := rfl
  complete _ := rfl
  proceeded before object rest h := by simp at h
  dropped h := by cases h

/-- An interceptor that drops the call is the last. -/
theorem Starts.drop {method : α → σ → Continuation × σ} {arguments : σ} {object : α}
    (h : (method object arguments).1 = .drop) (objects : List α) :
    Starts method (object :: objects) arguments (.drop, (method object arguments).2, [object]) where
  called := ⟨objects, rfl⟩
  arguments_eq := rfl
  complete h := by cases h
  proceeded before next rest hsplit hproceed := by
    have hlength := congrArg List.length hsplit
    simp only [List.length_append, List.length_cons, List.length_nil] at hlength
    rcases hproceed with hne | hcase
    · exact absurd (List.length_eq_zero_iff.mp (by omega)) hne
    · cases hcase
  dropped _ := ⟨[], object, rfl, h⟩

/-- Behind an interceptor that lets the call proceed the next is asked. -/
theorem Starts.cons {method : α → σ → Continuation × σ} {arguments : σ} {object : α}
    {objects : List α} {result : Continuation × σ × List α}
    (hproceed : (method object arguments).1 = .proceed)
    (h : Starts method objects (method object arguments).2 result) :
    Starts method (object :: objects) arguments (result.1, result.2.1, object :: result.2.2) where
  called := by
    obtain ⟨rest, hrest⟩ := h.called
    exact ⟨rest, by rw [hrest, List.cons_append]⟩
  arguments_eq := h.arguments_eq
  complete hc := by rw [h.complete hc]
  proceeded before next rest hsplit hcase := by
    cases before with
    | nil =>
      obtain ⟨rfl, -⟩ := List.cons.inj hsplit
      exact hproceed
    | cons first before =>
      obtain ⟨rfl, htail⟩ := List.cons.inj hsplit
      exact h.proceeded before next rest htail hcase
  dropped hc := by
    obtain ⟨before, last, hlast, hdrop⟩ := h.dropped hc
    exact ⟨object :: before, last, by rw [hlast, List.cons_append], hdrop⟩

/-- The interceptors are asked one after another until one refuses. -/
theorem startEach_starts (method : α → σ → Continuation × σ) (list : List (Interceptor α))
    (arguments : σ) : ∃ result,
      startEach method (list.map (·.toInterface .start)) arguments = some result ∧
      Starts method (list.map (·.object)) arguments result := by
  induction list generalizing arguments with
  | nil => exact ⟨_, rfl, Starts.nil method arguments⟩
  | cons i list ih =>
    have hcast : (i.toInterface .start).cast .start = some i.object := by
      rw [InterfacePointer.cast, Interceptor.toInterface, if_pos rfl]
    rw [List.map_cons, List.map_cons, startEach, hcast, Option.bind_some]
    cases hresult : (method i.object arguments).1 with
    | drop =>
      simp only [hresult, if_true]
      exact ⟨_, rfl, Starts.drop hresult _⟩
    | proceed =>
      obtain ⟨rest, hrest, hstarts⟩ := ih (method i.object arguments).2
      simp only [hresult, reduceCtorEq, if_false, hrest]
      exact ⟨_, rfl, Starts.cons hresult hstarts⟩

/-- The start asks the interceptors that are passed, in order. -/
theorem Installed.onStart_starts {engine : QGrpcInterceptorEngine α} {list : List (Interceptor α)}
    (h : Installed engine list) (method : α → σ → Continuation × σ) (arguments : σ) :
    ∃ result, engine.onStart method arguments = some result ∧
      Starts method ((passed list .start).map (·.object)) arguments result := by
  rw [QGrpcInterceptorEngine.onStart, h.handlers, Option.bind_some]
  exact startEach_starts method _ arguments

/-- The engine has a handler exactly when an interceptor is passed. -/
theorem Installed.hasHandlerFor_eq {engine : QGrpcInterceptorEngine α} {list : List (Interceptor α)}
    (h : Installed engine list) (c : InterceptorCapability) :
    engine.hasHandlerFor c = !(passed list c).isEmpty := by
  have hempty : (passed list c).isEmpty = (list.filter (·.implements c)).isEmpty := by
    rw [passed]
    cases c.flow with
    | outbound => rfl
    | inbound => exact List.isEmpty_reverse
  rw [QGrpcInterceptorEngine.hasHandlerFor, h.chain.hasHandlerFor_eq, hempty, Bool.eq_iff_iff]
  simp [List.filter_eq_nil_iff]

/-! ## Runs -/

/-- What is done with a chain. Null pointers are `none`. -/
inductive Operation (α : Type) where
  | add (owning : Bool) (interceptor : Option (Interceptor α))
  | set (owning : Bool) (interceptors : List (Option (Interceptor α)))
  | clear
  /-- The chain is moved into the engine. -/
  | install

/-- A chain that is built, and the engine. -/
structure Session (α : Type) where
  chain : QGrpcInterceptorChain α := {}
  engine : QGrpcInterceptorEngine α := {}

/-- An operation and whether it was accepted; a chain that was moved is replaced by a new one. -/
def Session.step (s : Session α) : Operation α → Bool × Session α
  | .add owning interceptor =>
    let result := s.chain.add owning interceptor
    (result.1, { s with chain := result.2 })
  | .set owning interceptors =>
    let result := s.chain.set owning interceptors
    (result.1, { s with chain := result.2 })
  | .clear => (true, { s with chain := s.chain.clear })
  | .install => (true, { chain := {}, engine := s.engine.setInterceptorChain s.chain })

def Session.run (operations : List (Operation α)) : Session α :=
  operations.foldl (fun s operation => (s.step operation).2) {}

/-- The list that is built, and the list that is installed. -/
structure PlainSession (α : Type) where
  chain : List (Interceptor α) := []
  installed : List (Interceptor α) := []

/-- The operations on plain lists: what contains a null pointer has no effect. -/
def PlainSession.step (s : PlainSession α) : Operation α → PlainSession α
  | .add _ none => s
  | .add _ (some i) => { s with chain := s.chain ++ [i] }
  | .set _ interceptors =>
    if interceptors.any (·.isNone) then s else { s with chain := interceptors.filterMap id }
  | .clear => { s with chain := [] }
  | .install => { chain := [], installed := s.chain }

def PlainSession.run (operations : List (Operation α)) : PlainSession α :=
  operations.foldl PlainSession.step {}

/-- A session stands for plain lists. -/
structure Refines (s : Session α) (p : PlainSession α) : Prop where
  chain : Represents s.chain p.chain
  engine : Installed s.engine p.installed

/-- A list of pointers none of which is null. -/
theorem eq_map_some {interceptors : List (Option (Interceptor α))}
    (h : interceptors.any (·.isNone) = false) :
    interceptors = (interceptors.filterMap id).map some := by
  induction interceptors with
  | nil => rfl
  | cons p interceptors ih =>
    rw [List.any_cons, Bool.or_eq_false_iff] at h
    cases p with
    | none => cases h.1
    | some i => exact congrArg (some i :: ·) (ih h.2)

/-- Each operation has the same effect on the lists. -/
theorem Refines.step {s : Session α} {p : PlainSession α} (h : Refines s p)
    (operation : Operation α) : Refines (s.step operation).2 (p.step operation) := by
  cases operation with
  | add owning interceptor =>
    cases interceptor with
    | none => exact h
    | some i => exact ⟨(h.chain.add_some owning i).2, h.engine⟩
  | set owning interceptors =>
    rw [PlainSession.step]
    cases hnone : interceptors.any (·.isNone) with
    | true =>
      rw [if_pos rfl, Session.step, s.chain.set_none owning hnone]
      exact h
    | false =>
      have hset := Represents.set_some s.chain owning (interceptors.filterMap id)
      rw [← eq_map_some hnone] at hset
      exact ⟨hset.2, h.engine⟩
  | clear => exact ⟨Represents.empty, h.engine⟩
  | install => exact ⟨Represents.empty, h.engine.setInterceptorChain h.chain⟩

/-- For every sequence of operations the engine does what the plain session does. -/
theorem run_refines (operations : List (Operation α)) :
    Refines (Session.run operations) (PlainSession.run operations) := by
  have hfold : ∀ (operations : List (Operation α)) (s : Session α) (p : PlainSession α),
      Refines s p →
      Refines (operations.foldl (fun s operation => (s.step operation).2) s)
        (operations.foldl PlainSession.step p) := by
    intro operations
    induction operations with
    | nil => exact fun _ _ h => h
    | cons operation operations ih => exact fun s p h => ih _ _ (h.step operation)
  exact hfold operations {} {} ⟨Represents.empty, Installed.empty⟩

/-- An operation that is rejected changes nothing. -/
theorem step_of_rejected {s : Session α} {operation : Operation α}
    (h : (s.step operation).1 = false) : (s.step operation).2 = s := by
  cases operation with
  | add owning interceptor =>
    cases interceptor with
    | none => rfl
    | some i => cases h
  | set owning interceptors =>
    cases hnone : interceptors.any (·.isNone) with
    | true => rw [Session.step, s.chain.set_none owning hnone]
    | false =>
      have hset := Represents.set_some s.chain owning (interceptors.filterMap id)
      rw [← eq_map_some hnone] at hset
      rw [Session.step, hset.1] at h
      cases h
  | clear => cases h
  | install => cases h

/-- After any operations the engine calls, for each capability, the interceptors of the installed
chain that have it, in the order of the chain or against it, stops a start at the first that drops
the call, and knows whether there are any; an operation that is rejected changes nothing. -/
theorem run_dispatches (operations : List (Operation α)) :
    (∀ (c : InterceptorCapability) (σ : Type) (method : α → σ → σ) (arguments : σ),
      (Session.run operations).engine.invoke c method arguments =
        some ((passed (PlainSession.run operations).installed c).foldl
            (fun arguments i => method i.object arguments) arguments,
          (passed (PlainSession.run operations).installed c).map (·.object))) ∧
    (∀ (σ : Type) (method : α → σ → Continuation × σ) (arguments : σ), ∃ result,
      (Session.run operations).engine.onStart method arguments = some result ∧
        Starts method ((passed (PlainSession.run operations).installed .start).map (·.object))
          arguments result) ∧
    (∀ c, (Session.run operations).engine.hasHandlerFor c =
      !(passed (PlainSession.run operations).installed c).isEmpty) ∧
    ∀ operation, ((Session.run operations).step operation).1 = false →
      ((Session.run operations).step operation).2 = Session.run operations := by
  have hengine := (run_refines operations).engine
  refine ⟨fun c σ method arguments => hengine.invoke_eq c method arguments,
    fun σ method arguments => hengine.onStart_starts method arguments, hengine.hasHandlerFor_eq,
    fun operation => step_of_rejected⟩

end QtGrpc.Interceptors
