import QtGrpc.Http2.ConnectionLoss

/-!
# Requests need their stream

A handler uses its stream where its request is sent, from the loop behind the first SETTINGS
frame or right from the start of the RPC, and where its queue is drained. A start and a drain
always find the stream attached. The loop does not: it also visits a handler that was refused a
stream, as long as its deferred failure has not been reported.
-/

namespace QtGrpc.Http2

namespace Rpc

/-- A drain in flight has its stream. -/
def DrainAttached (rpc : Rpc) : Prop :=
  ∀ draining, .processQueue draining ∈ rpc.stack → rpc.stream.isSome = true

/-- Drains that begin have a stream, and a stream stays attached. -/
structure Drains (rpc next : Rpc) : Prop where
  draining : ∀ draining, .processQueue draining ∈ next.stack →
    .processQueue draining ∈ rpc.stack ∨ next.stream.isSome = true
  stream : rpc.stream.isSome = true → next.stream.isSome = true

/-- Nothing happens. -/
theorem Drains.refl (rpc : Rpc) : Drains rpc rpc := ⟨fun _ => .inl, id⟩

/-- Two steps that start drains with a stream only are one. -/
theorem Drains.trans {a b c : Rpc} (hab : Drains a b) (hbc : Drains b c) : Drains a c where
  draining draining h := by
    rcases hbc.draining draining h with h | h
    · exact (hab.draining draining h).imp_right hbc.stream
    · exact .inr h
  stream h := hbc.stream (hab.stream h)

/-- Where no code is left to run, no drain is in flight. -/
theorem DrainAttached.of_empty {rpc : Rpc} (h : rpc.stack = []) : DrainAttached rpc := by
  intro draining hmem
  rw [h] at hmem
  cases hmem

/-- Where there is a stream, every drain has it. -/
theorem DrainAttached.of_stream {rpc : Rpc} (h : rpc.stream.isSome = true) : DrainAttached rpc :=
  fun _ _ => h

/-- Behind such a step a drain in flight still has its stream. -/
theorem Drains.drainAttached {rpc next : Rpc} (h : Drains rpc next) (hrpc : DrainAttached rpc) :
    DrainAttached next := fun draining hmem =>
  (h.draining draining hmem).elim (fun hmem => h.stream (hrpc draining hmem)) id

/-- A step that begins no drain. -/
theorem Drains.of_stack {rpc next : Rpc}
    (hstack : ∀ code ∈ next.stack, code ∈ rpc.stack ∨ ∀ draining, code ≠ .processQueue draining)
    (hstream : next.stream.isSome = rpc.stream.isSome) : Drains rpc next where
  draining draining hmem := .inl ((hstack _ hmem).resolve_right fun h => h draining rfl)
  stream := by rw [hstream]; exact id

/-- A step that leaves the code and the stream is one. -/
theorem Drains.of_eq {rpc next : Rpc} (hstack : next.stack = rpc.stack)
    (hstream : next.stream.isSome = rpc.stream.isSome) : Drains rpc next :=
  .of_stack (by rw [hstack]; exact fun _ => .inl) hstream

/-- A change beside stack and stream comes first. -/
theorem Drains.after {a b c : Rpc} (h : Drains b c) (hstack : b.stack = a.stack)
    (hstream : b.stream.isSome = a.stream.isSome) : Drains a c :=
  (Drains.of_eq hstack hstream).trans h

/-- So is one with an event. -/
theorem Drains.emit {rpc next : Rpc} (h : Drains rpc next) (e : Event) :
    Drains rpc (next.emit e) := h.trans (.of_eq rfl rfl)

/-- So is one with code that is yet to run, unless it works on the queue. -/
theorem Drains.push {rpc next : Rpc} (h : Drains rpc next) {added : List Continuation}
    (hadded : ∀ code ∈ added, ∀ draining, code ≠ .processQueue draining) :
    Drains rpc (next.push added) :=
  h.trans (.of_stack (fun code hcode =>
    (List.mem_append.mp hcode).elim (fun hmem => .inr (hadded code hmem)) .inl) rfl)

/-- Code leaves the stack. -/
theorem Drains.pop {rpc : Rpc} {code : Continuation} {rest : List Continuation}
    (hstack : rpc.stack = code :: rest) : Drains rpc { rpc with stack := rest } :=
  .of_stack (fun _ hmem => .inl (by rw [hstack]; exact List.mem_cons_of_mem _ hmem)) rfl

/-- The end of an operation begins no drain. -/
theorem contextFinished_drains (rpc : Rpc) (status : QGrpcStatus) {after : List Continuation}
    (hafter : ∀ code ∈ after, ∀ draining, code ≠ .processQueue draining) :
    Drains rpc (rpc.contextFinished status after) := by
  unfold contextFinished
  split
  · exact (Drains.refl rpc).push hafter
  · refine Drains.push (Drains.emit ?_ _) (by simpa using hafter)
    exact .of_eq rfl rfl

/-- Nor does finishing. -/
theorem finish_drains (rpc : Rpc) (status : QGrpcStatus) : Drains rpc (rpc.finish status) := by
  unfold finish
  split
  · exact .of_eq rfl rfl
  · split
    · exact .refl rpc
    · refine Drains.trans ?_ (contextFinished_drains _ status (by simp))
      exact .of_eq rfl rfl

/-- Nor does finishing later. -/
theorem asyncFinish_drains (rpc : Rpc) (status : QGrpcStatus) :
    Drains rpc (rpc.asyncFinish status) := by
  unfold asyncFinish
  split <;> exact .of_eq rfl rfl

/-- Nor does cancelling. -/
theorem cancelWithStatus_drains (rpc : Rpc) (status : QGrpcStatus) :
    Drains rpc (rpc.cancelWithStatus status) := by
  unfold cancelWithStatus
  split
  · exact .refl rpc
  · dsimp only
    split
    · split
      · exact (finish_drains _ status).after rfl rfl
      · exact (finish_drains _ status).after rfl rfl
    · exact (finish_drains _ status).after rfl rfl

/-- Handing a message to the stream goes on with a drain that has the stream. -/
theorem sendNext_drains (endStreamAtFirstData : Bool) (rpc : Rpc) :
    Drains rpc (rpc.sendNext endStreamAtFirstData) := by
  unfold sendNext
  split
  · exact .refl rpc
  · refine Drains.push (Drains.emit ?_ _) (by simp)
    exact .of_eq rfl rfl

/-- A drain begins only where there is a stream. -/
theorem processQueue_drains (endStreamAtFirstData : Bool) (rpc : Rpc) :
    Drains rpc (rpc.processQueue endStreamAtFirstData) := by
  unfold processQueue
  split
  · exact .refl rpc
  · rename_i stream hstream
    split
    · exact .refl rpc
    · split
      · exact .refl rpc
      · split
        · exact .refl rpc
        · refine Drains.trans ?_ (sendNext_drains _ _)
          exact ⟨fun _ _ => .inr (by simp [Rpc.push, hstream]), id⟩

/-- Writing a message begins a drain only where there is a stream. -/
theorem writeMessage_drains (options : HandlerOptions) (rpc : Rpc) (data : Bytes)
    (compressed : Option Bytes) : Drains rpc (rpc.writeMessage options data compressed) := by
  unfold writeMessage
  split
  · exact .refl rpc
  · split
    · exact finish_drains rpc _
    · refine Drains.trans (Drains.emit ?_ _) (processQueue_drains _ _)
      exact .of_eq rfl rfl

/-- So does closing the request. -/
theorem writesDone_drains (options : HandlerOptions) (rpc : Rpc) :
    Drains rpc (rpc.writesDone options) := by
  unfold writesDone
  split
  · exact .refl rpc
  · dsimp only
    split
    · exact .of_eq rfl rfl
    · refine Drains.trans (Drains.emit ?_ _) (processQueue_drains _ _)
      exact .of_eq rfl rfl

/-- So does sending it. -/
theorem sendInitialRequest_drains (options : HandlerOptions) (rpc : Rpc) (sendHEADERS : Bool) :
    Drains rpc (rpc.sendInitialRequest options sendHEADERS) := by
  unfold sendInitialRequest
  split
  · exact .refl rpc
  · split
    · exact asyncFinish_drains rpc _
    · refine Drains.trans (Drains.push (Drains.emit ?_ _) (by simp)) (processQueue_drains _ _)
      exact .of_eq rfl rfl

/-- So does the end of an upload. -/
theorem uploadFinished_drains (options : HandlerOptions) (rpc : Rpc) :
    Drains rpc (rpc.uploadFinished options) := by
  unfold uploadFinished
  extract_lets scheduled
  have hscheduled : Drains rpc scheduled := by
    unfold scheduled
    split <;> exact .of_eq rfl rfl
  split
  · exact hscheduled
  · exact hscheduled.trans (processQueue_drains _ _)

/-- Received headers begin no drain. -/
theorem headersReceived_drains (env : Environment) (options : HandlerOptions) (rpc : Rpc)
    (headers : HttpHeader) (endStream : Bool) :
    Drains rpc (rpc.headersReceived env options headers endStream) := by
  unfold headersReceived
  split
  · exact .of_eq rfl rfl
  split
  · exact .refl rpc
  dsimp only
  split
  · exact .of_eq rfl rfl
  split
  · exact (finish_drains _ _).after rfl rfl
  · refine Drains.push (Drains.emit (Drains.emit ?_ _) _) (by simp)
    exact .of_eq rfl rfl
  · exact (finish_drains _ _).after rfl rfl

/-- Nor do received messages. -/
theorem receiveNext_drains (options : HandlerOptions) (rpc : Rpc) (endStream : Bool)
    (reads : List ReadResult) : Drains rpc (rpc.receiveNext options endStream reads) := by
  have hparsed (parser : GrpcDataParser) : Drains rpc { rpc with grpcDataParser := parser } :=
    .of_eq rfl rfl
  unfold receiveNext
  dsimp only
  split
  · split
    · exact hparsed _
    · split <;> exact (hparsed _).trans (finish_drains _ _)
  · exact (hparsed _).trans (finish_drains _ _)
  · split
    · exact (hparsed _).trans (finish_drains _ _)
    · unfold messageReceived
      split
      · exact (((hparsed _).push (by simp)).emit _).push (by simp)
      · exact (hparsed _).push (by simp)

/-- Code that runs on begins a drain only where there is a stream. -/
theorem resume_drains (options : HandlerOptions) (rpc next : Rpc) (reads : List ReadResult)
    (hown : rpc.OwnStack) (hstep : rpc.resume options reads = some next) : Drains rpc next := by
  unfold resume at hstep
  split at hstep
  · rename_i rest hstack
    cases hstep
    exact (Drains.pop hstack).trans (.of_eq rfl rfl)
  · rename_i endStream rest hstack
    cases hstep
    exact (Drains.pop hstack).trans (receiveNext_drains options _ endStream reads)
  · rename_i rest hstack
    split at hstep
    · cases hstep
    · split at hstep <;> cases hstep
      · exact sendNext_drains _ rpc
      · exact (Drains.pop hstack).trans (.of_eq rfl rfl)
  · rename_i rest hstack
    cases hstep
    exact (Drains.pop hstack).trans (.of_eq rfl rfl)
  · rename_i rest hstack
    cases hstep
    split
    · exact (Drains.pop hstack).trans (cancelWithStatus_drains _ _)
    · exact Drains.pop hstack
  · rename_i rest hstack
    exact absurd (by simp [hstack]) hown.1
  · rename_i rest hstack
    exact absurd (by simp [hstack]) hown.2
  · cases hstep

/-- An RPC that takes inputs of its own loses its stream only where no code is in flight. -/
theorem step_drains (env : Environment) (options : HandlerOptions) (rpc next : Rpc)
    (input : Input) (hinput : input.own = true) (hown : rpc.OwnStack)
    (hstep : step env options rpc input = some next) : Drains rpc next ∨ next.stack = [] := by
  cases input <;> simp only [step] at hstep
  case headersReceived headers endStream =>
    split at hstep <;> cases hstep
    exact .inl (headersReceived_drains env options rpc headers endStream)
  case dataReceived data endStream =>
    split at hstep <;> cases hstep
    unfold dataReceived
    split
    · exact .inl (.refl rpc)
    · split
      · exact .inl (.refl rpc)
      · refine .inl (Drains.push ?_ (by simp))
        exact .of_eq rfl rfl
  case errorOccurred code text =>
    split at hstep
    · cases hstep
    · rename_i stream hstream
      split at hstep
      · cases hstep
      · split at hstep <;> cases hstep
        · exact .inl (.refl rpc)
        · exact .inl ((finish_drains _ _).after rfl (by simp [hstream]))
  case bytesWritten bytes =>
    split at hstep <;> cases hstep
    exact .inl (.of_eq rfl rfl)
  case uploadFinished =>
    split at hstep
    · cases hstep
    · rename_i stream hstream
      split at hstep <;> cases hstep
      exact .inl ((uploadFinished_drains options _).after rfl (by simp [Rpc.emit, hstream]))
  case uploadDropped =>
    split at hstep
    · cases hstep
    · rename_i stream hstream
      split at hstep <;> cases hstep
      exact .inl (.of_eq rfl (by simp [Rpc.emit, hstream]))
  case streamStateChanged state =>
    obtain ⟨stream, hstream, rfl⟩ := Option.map_eq_some_iff.mp hstep
    exact .inl (.of_eq rfl (by simp [hstream]))
  case sendDATAAccepted =>
    split at hstep <;> cases hstep
    rename_i rest stream hstack hstream
    refine .inl (Drains.emit (.of_stack (fun code hcode => ?_) ?_) _)
    · rcases List.mem_cons.mp hcode with rfl | hcode
      · exact .inr (by simp)
      · exact .inl (by rw [hstack]; exact List.mem_cons_of_mem _ hcode)
    · simp [hstream]
  case sendDATARefused =>
    split at hstep <;> cases hstep
    rename_i draining rest hstack
    refine .inl (.of_stack (fun code hcode => .inl ?_) rfl)
    rw [hstack]
    exact List.mem_cons_of_mem _ (List.mem_cons_of_mem _ hcode)
  case sendDATAReturned =>
    split at hstep <;> cases hstep
    rename_i rest hstack
    exact .inl (Drains.pop hstack)
  case attachStream => cases hinput
  case createStreamFailed error => cases hinput
  case sendInitialRequest sendHEADERS => cases hinput
  case socketError errorCode => cases hinput
  case connectionDeleted => cases hinput
  case channelDestroyed => cases hinput
  case writeMessage data compressed =>
    split at hstep <;> cases hstep
    split
    · exact .inl (writeMessage_drains options rpc data compressed)
    · exact .inl (.refl rpc)
  case writeUnserializable messageTooLarge lastErrorString =>
    split at hstep <;> cases hstep
    split
    · exact .inl (contextFinished_drains rpc _ (by simp))
    · exact .inl (.refl rpc)
  case writesDone =>
    split at hstep <;> cases hstep
    split
    · exact .inl (writesDone_drains options rpc)
    · exact .inl (.refl rpc)
  case cancel =>
    split at hstep <;> cases hstep
    unfold cancel
    split
    · exact .inl (.refl rpc)
    · exact .inl (cancelWithStatus_drains rpc _)
  case slotReturned =>
    split at hstep <;> cases hstep
    rename_i rest hstack
    exact .inl (Drains.pop hstack)
  case resume reads => exact .inl (resume_drains options rpc next reads hown hstep)
  case deadlineTimeout =>
    split at hstep <;> cases hstep
    exact .inl ((cancelWithStatus_drains _ _).after rfl rfl)
  case callback callback =>
    have htaken : Drains rpc { rpc with pending := rpc.pending.erase callback } := .of_eq rfl rfl
    split at hstep
    · cases hstep
    cases callback with
    | messageWritten =>
      simp only at hstep
      split at hstep
      · cases hstep
      · split at hstep <;> cases hstep
        · exact .inl ((htaken.emit _).push (by simp))
        · exact .inl htaken
    | asyncFinish status =>
      simp only at hstep
      split at hstep <;> cases hstep
      exact .inl (htaken.trans (finish_drains _ status))
    | contextFinished status =>
      simp only at hstep
      split at hstep <;> cases hstep
      exact .inl (htaken.trans (contextFinished_drains _ status (by simp)))
  case deferredDelete =>
    split at hstep <;> cases hstep
    rename_i hready
    refine .inr ?_
    rw [destroy, dropStream_stack]
    exact ((atEventLoop_iff rpc).mp hready.1).1
  case contextDestroyed =>
    split at hstep <;> cases hstep
    exact .inl (.of_eq rfl rfl)

/-- Every input of an RPC leaves its drains their stream. -/
theorem step_drainAttached {env : Environment} {options : HandlerOptions} {rpc next : Rpc}
    {input : Input} (hinput : input.own = true) (hown : rpc.OwnStack) (h : DrainAttached rpc)
    (hstep : step env options rpc input = some next) : DrainAttached next := by
  rcases step_drains env options rpc next input hinput hown hstep with hdrains | hempty
  · exact hdrains.drainAttached h
  · exact .of_empty hempty

end Rpc

namespace Http2Channel

/-- The handler on which `processOperation` calls `sendInitialRequest`, if it does. -/
def requestedAtOnce (channel : Http2Channel) (request : StartRequest) : Option ChannelHandler :=
  if ¬ request.writable ∧ channel.state = .connected then none
  else
    let handler : ChannelHandler :=
      { options := request.options
        initialHeaders := request.initialHeaders
        rpc := (Rpc.fresh request.options).writeMessage request.options request.data
          request.compressed }
    match channel.connection, request.streamError with
    | some _, some _ => none
    | connection, _ =>
      if channel.state = .settingsReceived then
        some (match connection with
          | some connection => handler.attachStream connection
          | none => handler)
      else none

/-- It is the handler that joins the others once its request is sent. -/
theorem processOperation_requestedAtOnce {channel : Http2Channel} {request : StartRequest}
    {handler : ChannelHandler} (h : channel.requestedAtOnce request = some handler) :
    (channel.processOperation request).handlers =
      channel.handlers ++ [handler.sendInitialRequest request.sendHEADERS] := by
  unfold requestedAtOnce at h
  by_cases hwritable : ¬ request.writable = true ∧ channel.state = .connected
  · rw [if_pos hwritable] at h
    cases h
  rw [if_neg hwritable] at h
  by_cases hstate : channel.state = .settingsReceived
  · unfold processOperation
    rw [if_neg hwritable]
    cases hconnection : channel.connection with
    | none =>
      simp only [hconnection, hstate, if_true] at h ⊢
      cases h
      rfl
    | some connection =>
      cases herror : request.streamError with
      | none =>
        simp only [hconnection, herror, hstate, if_true] at h ⊢
        cases h
        rfl
      | some error =>
        simp only [hconnection, herror] at h
        cases h
  · cases hconnection : channel.connection <;> cases herror : request.streamError <;>
      simp [hconnection, herror, hstate] at h

/-- Wherever the code is about to hand headers or data to a stream on behalf of an unfinished RPC,
the stream is attached: in the loop behind SETTINGS, at the start of the RPC, and in a drain. -/
structure UsesAttachedStreams (channel : Http2Channel) : Prop where
  settings : ∀ i remaining expired handler, channel.loop = some (.settings (i :: remaining) expired) →
    channel.stacksEmpty = true → channel.handlers[i]? = some handler → handler.rpc.Open →
    handler.rpc.stream.isSome = true
  start : ∀ request handler, channel.requestedAtOnce request = some handler → handler.rpc.Open →
    handler.rpc.stream.isSome = true
  queue : ∀ handler ∈ channel.handlers, handler.rpc.DrainAttached

/-- The RPCs that the current connection has refused a stream. -/
def recordRefused (refused : List Nat) (channel : Http2Channel) :
    ChannelEvent → Http2Channel → List Nat
  | .connected streamError, _ => channel.indices.filter fun i => (streamError i).isSome
  | .start request, _ =>
    if (request.writable ∨ channel.state ≠ .connected) ∧ channel.connection.isSome ∧
        request.streamError.isSome then
      channel.handlers.length :: refused
    else refused
  | _, _ => refused

/-- The loop behind SETTINGS is about to visit no unfinished RPC that was refused a stream. -/
def VisitsAccepted (channel : Http2Channel) (refused : List Nat) : Prop :=
  ∀ i remaining expired handler, channel.loop = some (.settings (i :: remaining) expired) →
    channel.stacksEmpty = true → channel.handlers[i]? = some handler → handler.rpc.Open →
    i ∉ refused

/-- An unfinished RPC has a stream exactly if there is a connection that did not refuse it one. -/
structure Provided (channel : Http2Channel) (refused : List Nat) : Prop where
  own : ∀ handler ∈ channel.handlers, handler.rpc.OwnStack
  draining : ∀ handler ∈ channel.handlers, handler.rpc.DrainAttached
  streams : ∀ i handler, channel.handlers[i]? = some handler → handler.rpc.Open →
    (handler.rpc.stream.isSome = true ↔ channel.connection.isSome = true ∧ i ∉ refused)
  bound : ∀ i ∈ refused, i < channel.handlers.length
  connection : channel.connection.isSome = true ↔
    channel.state = .connected ∨ channel.state = .settingsReceived
  socket : channel.losing = false →
    (channel.socket = .connected ↔ channel.connection.isSome = true)
  lost : channel.losing = true → channel.socket = .unconnected
  settings : ∀ remaining expired, channel.loop = some (.settings remaining expired) →
    channel.state = .settingsReceived

/-- Where the loop comes only to accepted RPCs, every use of a stream finds it attached, and
nowhere else. -/
theorem Provided.uses_iff_visits {channel : Http2Channel} {refused : List Nat}
    (h : Provided channel refused) :
    UsesAttachedStreams channel ↔ VisitsAccepted channel refused := by
  constructor
  · intro huses i remaining expired handler hloop hstacks hhandler hopen
    exact ((h.streams i handler hhandler hopen).mp
      (huses.settings i remaining expired handler hloop hstacks hhandler hopen)).2
  · refine fun hvisits => ⟨fun i remaining expired handler hloop hstacks hhandler hopen => ?_,
      fun request handler hrequested hopen => ?_, h.draining⟩
    · refine (h.streams i handler hhandler hopen).mpr ⟨?_, ?_⟩
      · exact h.connection.mpr (.inr (h.settings _ _ hloop))
      · exact hvisits i remaining expired handler hloop hstacks hhandler hopen
    · unfold requestedAtOnce at hrequested
      split at hrequested
      · cases hrequested
      dsimp only at hrequested
      split at hrequested
      · cases hrequested
      split at hrequested
      · rename_i hstate
        obtain ⟨connection, hconnection⟩ :=
          Option.isSome_iff_exists.mp (h.connection.mpr (.inr hstate))
        rw [hconnection] at hrequested
        cases hrequested
        rfl
      · cases hrequested

/-- A new channel has no RPC and no connection. -/
theorem construct_provided (connectTimeoutEnabled : Bool) :
    Provided (construct connectTimeoutEnabled) [] where
  own := by simp [construct, attemptConnect]
  draining := by simp [construct, attemptConnect]
  streams := by simp [construct, attemptConnect]
  bound := by simp
  connection := by simp [construct, attemptConnect]
  socket := by simp [construct, attemptConnect]
  lost := by simp [construct, attemptConnect, losing]
  settings := by simp [construct, attemptConnect]

/-- One handler changes and keeps its stream as long as it is open. -/
theorem Provided.set {channel : Http2Channel} {refused : List Nat} (h : Provided channel refused)
    {i : Nat} {before after : ChannelHandler} (hbefore : channel.handlers[i]? = some before)
    (hown : after.rpc.OwnStack) (hdraining : after.rpc.DrainAttached)
    (hopen : after.rpc.Open → before.rpc.Open ∧ after.rpc.stream.isSome = before.rpc.stream.isSome) :
    Provided { channel with handlers := channel.handlers.set i after } refused where
  own handler hmem := by
    rcases List.mem_or_eq_of_mem_set hmem with hmem | rfl
    · exact h.own handler hmem
    · exact hown
  draining handler hmem := by
    rcases List.mem_or_eq_of_mem_set hmem with hmem | rfl
    · exact h.draining handler hmem
    · exact hdraining
  streams j handler hhandler hafter := by
    by_cases hij : i = j
    · subst hij
      obtain ⟨-, rfl⟩ := by simpa [List.getElem?_set] using hhandler
      rw [(hopen hafter).2]
      exact h.streams i before hbefore (hopen hafter).1
    · rw [List.getElem?_set_ne hij] at hhandler
      exact h.streams j handler hhandler hafter
  bound j hj := by simpa using h.bound j hj
  connection := h.connection
  socket := h.socket
  lost := h.lost
  settings := h.settings

/-- A handler joins the others, with a stream or refused one where there is a connection. -/
theorem Provided.append {channel : Http2Channel} {refused refused' : List Nat}
    (h : Provided channel refused) {handler : ChannelHandler} (hown : handler.rpc.OwnStack)
    (hdraining : handler.rpc.DrainAttached)
    (hrefused : ∀ i, i ≠ channel.handlers.length → (i ∈ refused' ↔ i ∈ refused))
    (hopen : handler.rpc.Open → (handler.rpc.stream.isSome = true ↔
      channel.connection.isSome = true ∧ channel.handlers.length ∉ refused')) :
    Provided { channel with handlers := channel.handlers ++ [handler] } refused' where
  own other hmem := by
    rcases List.mem_append.mp hmem with hmem | hmem
    · exact h.own other hmem
    · rwa [List.mem_singleton.mp hmem]
  draining other hmem := by
    rcases List.mem_append.mp hmem with hmem | hmem
    · exact h.draining other hmem
    · rwa [List.mem_singleton.mp hmem]
  streams i other hother hafter := by
    by_cases hi : i < channel.handlers.length
    · rw [List.getElem?_append_left hi] at hother
      rw [h.streams i other hother hafter, hrefused i (by omega)]
    · have hlast : i = channel.handlers.length := by
        have := (List.getElem?_eq_some_iff.mp hother).1
        simp at this
        omega
      subst hlast
      obtain rfl : handler = other := by simpa using hother
      exact hopen hafter
  bound i hi := by
    by_cases hlast : i = channel.handlers.length
    · simp [hlast]
    · have := h.bound i ((hrefused i hlast).mp hi)
      simp
      omega
  connection := h.connection
  socket := h.socket
  lost := h.lost
  settings := h.settings

/-- Where all stacks are empty, that of each handler is. -/
theorem stack_of_stacksEmpty {channel : Http2Channel} (h : channel.stacksEmpty = true)
    {handler : ChannelHandler} (hmem : handler ∈ channel.handlers) : handler.rpc.stack = [] := by
  simpa using List.all_eq_true.mp h handler hmem

/-- The end of the operation object leaves the code that is yet to run. -/
@[simp] theorem destroy_stack (rpc : Rpc) : rpc.destroy.stack = rpc.stack := by
  rw [Rpc.destroy, Rpc.dropStream_stack]

/-- So does finishing later. -/
@[simp] theorem asyncFinish_stack (rpc : Rpc) (status : QGrpcStatus) :
    (rpc.asyncFinish status).stack = rpc.stack := by
  unfold Rpc.asyncFinish
  split <;> rfl

/-- Finishing later leaves the stream. -/
@[simp] theorem asyncFinish_stream (rpc : Rpc) (status : QGrpcStatus) :
    (rpc.asyncFinish status).stream = rpc.stream := by
  unfold Rpc.asyncFinish
  split <;> rfl

/-- A new connection gives each unfinished RPC a stream or refuses it one. -/
theorem Provided.createHttp2Connection {channel : Http2Channel} {refused : List Nat}
    (h : Provided channel refused) (hquiescent : channel.quiescent = true)
    (hsocket : channel.socket = .connecting) (streamError : Nat → Option String) :
    Provided (({ channel with socket := .connected }).createHttp2Connection streamError)
      (channel.indices.filter fun i => (streamError i).isSome) := by
  have hloop := loop_of_quiescent hquiescent
  have hstacks := (Bool.and_eq_true_iff.mp hquiescent).2
  have hconnection : channel.connection = none := by
    have hsome := h.socket (losing_of_loop hloop)
    rw [hsocket] at hsome
    simpa using hsome
  have hlosing : losing (({ channel with socket := .connected }).createHttp2Connection
      streamError) = false := losing_of_loop hloop
  refine ⟨?_, ?_, ?_, ?_, ?_, ?_, ?_, ?_⟩
  · intro handler hmem
    obtain ⟨i, hi, rfl⟩ := List.mem_mapIdx.mp hmem
    have hown := h.own _ (List.getElem_mem hi)
    split
    · exact hown
    split
    · exact (Rpc.destroy_stays _).stack hown
    · cases streamError i with
      | none => exact hown
      | some error => exact (Rpc.asyncFinish_stays _ _).stack hown
  · intro handler hmem
    obtain ⟨i, hi, rfl⟩ := List.mem_mapIdx.mp hmem
    have hempty := stack_of_stacksEmpty hstacks (List.getElem_mem hi)
    refine .of_empty ?_
    split
    · exact hempty
    split
    · simpa using hempty
    · cases streamError i with
      | none => exact hempty
      | some error => simpa [ChannelHandler.createHttp2Stream] using hempty
  · intro i handler hhandler hopen
    simp only [Http2Channel.createHttp2Connection, List.getElem?_mapIdx] at hhandler
    obtain ⟨before, hbefore, rfl⟩ := Option.map_eq_some_iff.mp hhandler
    have hi := (List.getElem?_eq_some_iff.mp hbefore).1
    split at hopen
    · rename_i halive
      exact absurd hopen.1 halive
    rename_i halive
    rw [if_neg halive]
    split at hopen
    · rw [Rpc.Open, Rpc.destroy_alive] at hopen
      cases hopen.1
    rename_i hcontext
    rw [if_neg hcontext]
    cases herror : streamError i with
    | none =>
      simp [ChannelHandler.createHttp2Stream, ChannelHandler.attachStream, Rpc.emit, herror,
        Http2Channel.createHttp2Connection]
    | some error =>
      rw [herror] at hopen
      have hbare : ¬ before.rpc.stream.isSome = true := by
        rw [h.streams i before hbefore ((Rpc.asyncFinish_stays _ _).wasOpen hopen), hconnection]
        simp
      simp [ChannelHandler.createHttp2Stream, herror, indices, hi,
        Http2Channel.createHttp2Connection]
      simpa using hbare
  · intro i hi
    simpa [Http2Channel.createHttp2Connection, indices] using (List.mem_filter.mp hi).1
  · simp [Http2Channel.createHttp2Connection]
  · simp [Http2Channel.createHttp2Connection]
  · simp [hlosing]
  · simp [Http2Channel.createHttp2Connection, hloop]

/-- The state of the connection changes while the handlers stay as they are. -/
theorem Provided.of_handlers {channel next : Http2Channel} {refused : List Nat}
    (h : Provided channel refused) (hhandlers : next.handlers = channel.handlers)
    (hconnection : next.connection = channel.connection)
    (hstate : next.connection.isSome = true ↔
      next.state = .connected ∨ next.state = .settingsReceived)
    (hsocket : next.losing = false →
      (next.socket = .connected ↔ next.connection.isSome = true))
    (hlost : next.losing = true → next.socket = .unconnected)
    (hsettings : ∀ remaining expired, next.loop = some (.settings remaining expired) →
      next.state = .settingsReceived) : Provided next refused where
  own := by rw [hhandlers]; exact h.own
  draining := by rw [hhandlers]; exact h.draining
  streams := by rw [hhandlers, hconnection]; exact h.streams
  bound := by rw [hhandlers]; exact h.bound
  connection := hstate
  socket := hsocket
  lost := hlost
  settings := hsettings

/-- Sending the request keeps the stream. -/
theorem sendInitialRequest_drains {handler : ChannelHandler} (sendHEADERS : Bool) :
    Rpc.Drains handler.rpc (handler.sendInitialRequest sendHEADERS).rpc := by
  unfold ChannelHandler.sendInitialRequest
  split
  · exact .refl _
  · exact Rpc.sendInitialRequest_drains handler.options handler.rpc sendHEADERS

/-- A started RPC is given a stream of the connection, or refused one. -/
theorem Provided.processOperation {channel : Http2Channel} {refused : List Nat}
    (h : Provided channel refused) (request : StartRequest) :
    Provided (channel.processOperation request)
      (recordRefused refused channel (.start request) (channel.processOperation request)) := by
  have hkept (i : Nat) (hi : i ≠ channel.handlers.length) :
      i ∈ recordRefused refused channel (.start request) (channel.processOperation request) ↔
        i ∈ refused := by
    simp only [recordRefused]
    split <;> simp [hi]
  have hnew : channel.handlers.length ∉ refused := fun hmem => (h.bound _ hmem).false
  generalize hrecorded : recordRefused refused channel (.start request)
    (channel.processOperation request) = refused' at hkept ⊢
  simp only [recordRefused] at hrecorded
  unfold Http2Channel.processOperation
  split
  · refine h.append (by simp [Rpc.fresh, Rpc.OwnStack]) (.of_empty rfl) hkept fun hopen => ?_
    cases hopen.1
  rename_i hasked
  extract_lets handler
  have hstays : Rpc.Stays (Rpc.fresh request.options) handler.rpc :=
    Rpc.writeMessage_stays _ _ _ _
  have hown : handler.rpc.OwnStack := hstays.stack (by simp [Rpc.fresh, Rpc.OwnStack])
  have hdraining : handler.rpc.DrainAttached :=
    (Rpc.writeMessage_drains _ _ _ _).drainAttached (.of_empty rfl)
  have hbare (hopen : handler.rpc.Open) : handler.rpc.stream.isSome = false := hstays.stream hopen
  split
  · rename_i connection error hconnection herror
    have hrefused : channel.handlers.length ∈ refused' := by
      have hasked' : request.writable = true ∨ channel.state ≠ .connected := by
        by_contra hno
        exact hasked (by simpa using hno)
      rw [← hrecorded, if_pos ⟨hasked', by simp [hconnection], by simp [herror]⟩]
      exact List.mem_cons_self
    refine h.append ((Rpc.asyncFinish_stays _ _).stack hown)
      ((Rpc.asyncFinish_drains _ _).drainAttached hdraining) hkept fun hopen => ?_
    have hnone := hbare ((Rpc.asyncFinish_stays _ _).wasOpen hopen)
    simp [ChannelHandler.createHttp2Stream, hnone, hrefused]
  · rename_i hno
    have hsame : refused' = refused := by
      rw [← hrecorded, if_neg]
      rintro ⟨-, hconnection, herror⟩
      obtain ⟨connection, hconnection⟩ := Option.isSome_iff_exists.mp hconnection
      obtain ⟨error, herror⟩ := Option.isSome_iff_exists.mp herror
      exact hno connection error hconnection herror
    subst hsame
    cases hconnection : channel.connection with
    | none =>
      have hstate : channel.state ≠ .connected ∧ channel.state ≠ .settingsReceived := by
        have hsome := h.connection
        rw [hconnection] at hsome
        simpa using hsome
      have happended := h.append hown hdraining hkept fun hopen => by
        simp [hbare hopen, hconnection]
      simp only [hstate.2, if_false]
      split
      · refine happended.of_handlers rfl hconnection.symm ?_ (fun hlosing => ?_) h.lost ?_
        · simp
        · have hsocket := h.socket hlosing
          rw [hconnection] at hsocket
          exact hsocket
        · intro remaining expired hloop
          exact absurd (h.settings remaining expired hloop) hstate.2
      · simpa only [hconnection] using happended
    | some connection =>
      have hstate : channel.state ≠ .error := by
        have hsome := h.connection
        rintro herror
        simp [hconnection, herror] at hsome
      simp only [hstate, if_false]
      split
      · rename_i hreceived
        have hsent := @sendInitialRequest_drains (handler.attachStream connection)
          request.sendHEADERS
        have happended := h.append
          (@sendInitialRequest_ownStack (handler.attachStream connection) request.sendHEADERS hown)
          (hsent.drainAttached (.of_stream rfl)) hkept fun _ => by
            simp [hsent.stream rfl, hconnection, hnew]
        simpa only [hconnection, hreceived] using happended
      · have happended := @Provided.append channel refused' refused' h
          (handler.attachStream connection) hown (.of_stream rfl) hkept fun _ => by
            simp [ChannelHandler.attachStream, Rpc.emit, hconnection, hnew]
        simpa only [hconnection] using happended

/-- A step of an RPC of its own leaves it its stream. -/
theorem Provided.rpc {env : Environment} {channel : Http2Channel} {refused : List Nat}
    (h : Provided channel refused) {i : Nat} {handler : ChannelHandler} {input : Input} {rpc : Rpc}
    (hhandler : channel.handlers[i]? = some handler) (hinput : input.own = true)
    (hstep : Rpc.step env handler.options handler.rpc input = some rpc) :
    Provided { channel with handlers := channel.handlers.set i { handler with rpc := rpc } }
      refused := by
  have hmem := List.mem_of_getElem? hhandler
  have hstays := Rpc.step_stays env handler.options handler.rpc rpc input hinput
    (h.own handler hmem) hstep
  exact h.set hhandler (hstays.stack (h.own handler hmem))
    (Rpc.step_drainAttached hinput (h.own handler hmem) (h.draining handler hmem) hstep)
    fun hopen => ⟨hstays.wasOpen hopen, hstays.stream hopen⟩

/-- The loop of a socket error has dealt with one more handler. -/
theorem Provided.advanceSocketError {channel : Http2Channel} {refused : List Nat}
    (h : Provided channel refused) {errorCode errorCode' : String} {existing existing' : Nat}
    {remaining remaining' expired expired' : List Nat}
    (hloop : channel.loop = some (.socketError errorCode existing remaining expired)) :
    Provided { channel with loop := some (.socketError errorCode' existing' remaining' expired') }
      refused := by
  refine h.of_handlers rfl rfl h.connection (fun hlosing => ?_) (fun _ => ?_) fun _ _ hnext => ?_
  · cases hlosing
  · exact h.lost (by rw [losing, hloop])
  · simp at hnext

/-- The loop that sends the requests has dealt with one more handler. -/
theorem Provided.advanceSettings {channel : Http2Channel} {refused : List Nat}
    (h : Provided channel refused) {remaining remaining' expired expired' : List Nat}
    (hloop : channel.loop = some (.settings remaining expired)) :
    Provided { channel with loop := some (.settings remaining' expired') } refused := by
  refine h.of_handlers rfl rfl h.connection (fun _ => ?_) (fun hlosing => ?_) fun _ _ _ => ?_
  · exact h.socket (by rw [losing, hloop])
  · cases hlosing
  · exact h.settings _ _ hloop

/-- The handlers that are left run no code of the channel's. -/
theorem Provided.deleteExpired_ownStack {channel : Http2Channel} {refused : List Nat}
    (h : Provided channel refused) (expired : List Nat) {handler : ChannelHandler}
    (hmem : handler ∈ channel.deleteExpired expired) : handler.rpc.OwnStack := by
  obtain ⟨i, hi, rfl⟩ := List.mem_mapIdx.mp hmem
  have hown := h.own _ (List.getElem_mem hi)
  split
  · exact (Rpc.destroy_stays _).stack hown
  · exact hown

/-- Nor any other code, where none ran. -/
theorem deleteExpired_stack {channel : Http2Channel} (hstacks : channel.stacksEmpty = true)
    {expired : List Nat} {handler : ChannelHandler} (hmem : handler ∈ channel.deleteExpired expired) :
    handler.rpc.stack = [] := by
  obtain ⟨i, hi, rfl⟩ := List.mem_mapIdx.mp hmem
  have hempty := stack_of_stacksEmpty hstacks (List.getElem_mem hi)
  split
  · simpa using hempty
  · exact hempty

/-- A handler that is open after the deletion of the expired ones was there before. -/
theorem getElem?_deleteExpired {channel : Http2Channel} {expired : List Nat} {i : Nat}
    {handler : ChannelHandler} (hhandler : (channel.deleteExpired expired)[i]? = some handler)
    (hopen : handler.rpc.Open) : channel.handlers[i]? = some handler := by
  simp only [deleteExpired, List.getElem?_mapIdx] at hhandler
  obtain ⟨before, hbefore, rfl⟩ := Option.map_eq_some_iff.mp hhandler
  split at hopen
  · rw [Rpc.Open, Rpc.destroy_alive] at hopen
    cases hopen.1
  · rename_i hexpired
    rw [if_neg hexpired]
    exact hbefore

/-- The end of the loop that sends the requests. -/
theorem Provided.endSettings {channel : Http2Channel} {refused : List Nat}
    (h : Provided channel refused) {expired : List Nat} (hstacks : channel.stacksEmpty = true)
    (hloop : channel.loop = some (.settings [] expired)) :
    Provided { channel with handlers := channel.deleteExpired expired, loop := none } refused where
  own _ hmem := h.deleteExpired_ownStack expired hmem
  draining _ hmem := .of_empty (deleteExpired_stack hstacks hmem)
  streams i handler hhandler hopen :=
    h.streams i handler (getElem?_deleteExpired hhandler hopen) hopen
  bound i hi := by simpa [deleteExpired] using h.bound i hi
  connection := h.connection
  socket _ := h.socket (by rw [losing, hloop])
  lost hlosing := by cases hlosing
  settings := by simp

/-- The end of `handleSocketError` takes every stream. -/
theorem Provided.connectionLost {channel : Http2Channel} {refused : List Nat}
    (h : Provided channel refused) {errorCode : String} {existing : Nat} {expired : List Nat}
    (hstacks : channel.stacksEmpty = true)
    (hloop : channel.loop = some (.socketError errorCode existing [] expired)) :
    Provided (channel.connectionLost expired) refused where
  own handler hmem := by
    obtain ⟨before, hbefore, rfl⟩ := List.mem_map.mp hmem
    have hown := h.deleteExpired_ownStack expired hbefore
    simpa [ChannelHandler.dropStream, Rpc.OwnStack] using hown
  draining handler hmem := by
    obtain ⟨before, hbefore, rfl⟩ := List.mem_map.mp hmem
    refine .of_empty ?_
    simpa [ChannelHandler.dropStream] using deleteExpired_stack hstacks hbefore
  streams i handler hhandler hopen := by
    simp only [Http2Channel.connectionLost, List.getElem?_map] at hhandler
    obtain ⟨before, -, rfl⟩ := Option.map_eq_some_iff.mp hhandler
    simp [ChannelHandler.dropStream, Http2Channel.connectionLost]
  bound i hi := by simpa [Http2Channel.connectionLost, deleteExpired] using h.bound i hi
  connection := by simp [Http2Channel.connectionLost]
  socket _ := by simp [Http2Channel.connectionLost, h.lost (by rw [losing, hloop])]
  lost hlosing := by cases hlosing
  settings := by simp [Http2Channel.connectionLost]

/-- A loop that visits its next handler takes no stream from the others. -/
theorem Provided.visit {channel next : Http2Channel} {refused : List Nat}
    (h : Provided channel refused) {sendHEADERS : Bool} (hstacks : channel.stacksEmpty = true)
    (hvisit : channel.visit sendHEADERS = some next) : Provided next refused := by
  unfold Http2Channel.visit at hvisit
  split at hvisit
  · cases hvisit
  · rename_i errorCode existing i remaining expired hloop
    obtain ⟨handler, hhandler, rfl⟩ := Option.map_eq_some_iff.mp hvisit
    split
    · exact h.advanceSocketError hloop
    split
    · exact h.advanceSocketError hloop
    · have hmem := List.mem_of_getElem? hhandler
      have hclosed := Rpc.finish_closed handler.rpc
        ⟨.unavailable, "Network error occurred: " ++ errorCode⟩
      have hfinished := @Provided.set _ _ h i handler { handler with
          rpc := handler.rpc.finish ⟨.unavailable, "Network error occurred: " ++ errorCode⟩ }
        hhandler (Rpc.finish_ownStack _ (h.own handler hmem))
        ((Rpc.finish_drains _ _).drainAttached (h.draining handler hmem))
        fun hopen => absurd hopen hclosed
      exact hfinished.advanceSocketError hloop
  · rename_i errorCode existing expired hloop
    cases hvisit
    exact h.connectionLost hstacks hloop
  · rename_i i remaining expired hloop
    split at hvisit
    · cases hvisit
    rename_i handler hhandler
    split at hvisit
    · cases hvisit
      exact h.advanceSettings hloop
    split at hvisit
    · cases hvisit
      exact h.advanceSettings hloop
    split at hvisit
    · cases hvisit
    rename_i halive hcontext hstream
    cases hvisit
    have hmem := List.mem_of_getElem? hhandler
    have hdrains := @sendInitialRequest_drains handler sendHEADERS
    have hsent := h.set hhandler (sendInitialRequest_ownStack sendHEADERS (h.own handler hmem))
      (hdrains.drainAttached (h.draining handler hmem)) fun hopen => by
        have hwas := sendInitialRequest_wasOpen sendHEADERS hopen
        have hattached : handler.rpc.stream.isSome = true := by
          simpa [hwas.2.2, Option.isSome_iff_ne_none] using hstream
        exact ⟨hwas, by rw [hdrains.stream hattached, hattached]⟩
    exact hsent.advanceSettings hloop
  · rename_i expired hloop
    cases hvisit
    exact h.endSettings hstacks hloop

/-- Every event keeps the streams where the connection has accepted them. -/
theorem step_provided {env : Environment} {channel next : Http2Channel} {refused : List Nat}
    {event : ChannelEvent} (h : Provided channel refused)
    (hstep : step env channel event = some next) :
    Provided next (recordRefused refused channel event next) := by
  cases event <;> simp only [step] at hstep
  case connected streamError =>
    split at hstep <;> cases hstep
    rename_i hready
    exact h.createHttp2Connection hready.1 hready.2 streamError
  case settingsFrameReceived =>
    split at hstep
    · rename_i hready
      have hlosing := losing_of_loop (loop_of_quiescent hready.1)
      split at hstep <;> cases hstep
      · exact h
      · refine h.of_handlers rfl rfl ⟨fun _ => .inr rfl, fun _ => hready.2⟩ (fun _ => ?_)
          (fun hnext => ?_) fun _ _ _ => rfl
        · exact h.socket hlosing
        · cases hnext
    · cases hstep
  case socketError errorCode =>
    split at hstep <;> cases hstep
    refine h.of_handlers rfl rfl h.connection (fun hlosing => ?_) (fun _ => rfl) fun _ _ hloop => ?_
    · cases hlosing
    · simp [handleSocketError] at hloop
  case connectTimeout =>
    split at hstep <;> cases hstep
    refine h.of_handlers rfl rfl h.connection (fun hlosing => ?_) (fun _ => rfl) fun _ _ hloop => ?_
    · cases hlosing
    · simp [handleSocketError] at hloop
  case reconnectTimeout =>
    split at hstep <;> cases hstep
    rename_i hready
    have hloop := loop_of_quiescent hready.1
    refine h.of_handlers rfl rfl h.connection (fun _ => ?_) (fun hlosing => ?_) fun _ _ hnext => ?_
    · have hsocket := h.socket (losing_of_loop hloop)
      simp only [Http2Channel.attemptConnect]
      split
      · rename_i hunconnected
        rw [← hsocket, hunconnected]
        simp
      · exact hsocket
    · simp [Http2Channel.attemptConnect, losing, hloop] at hlosing
    · simp [Http2Channel.attemptConnect, hloop] at hnext
  case start request =>
    split at hstep <;> cases hstep
    exact h.processOperation request
  case visit sendHEADERS =>
    split at hstep
    · rename_i hstacks
      exact h.visit hstacks hstep
    · cases hstep
  case rpc index input =>
    split at hstep
    · cases hstep
    rename_i handler hhandler
    split at hstep
    · rename_i hmay
      obtain ⟨rpc, hrpc, rfl⟩ := Option.map_eq_some_iff.mp hstep
      exact h.rpc hhandler (Bool.and_eq_true_iff.mp hmay).1 hrpc
    · cases hstep

end Http2Channel

open Http2Channel Transition

/-- In every state that a channel reaches, headers and data are handed to attached streams alone if
and only if the loop behind SETTINGS is not about to visit an unfinished RPC that the connection
refused a stream. -/
theorem usesAttachedStreams_iff (env : Environment) (connectTimeoutEnabled : Bool)
    (events : List ChannelEvent) (final : Http2Channel) (refused : List Nat)
    (hrun : run (observed (Http2Channel.step env) recordRefused)
      (construct connectTimeoutEnabled, []) events = some (final, refused)) :
    UsesAttachedStreams final ↔ VisitsAccepted final refused := by
  have hprovided : Provided final refused := run_invariant _
    (fun state : Http2Channel × List Nat => Provided state.1 state.2)
    (fun state event next h hstep => by
      obtain ⟨hnext, hrecord⟩ := observed_eq_some _ _ hstep
      rw [hrecord]
      exact step_provided h hnext)
    _ (final, refused) events (construct_provided connectTimeoutEnabled) hrun
  exact hprovided.uses_iff_visits

/-- The record of the refusals neither adds runs of the channel nor takes any away. -/
theorem run_recordRefused (env : Environment) (connectTimeoutEnabled : Bool)
    (events : List ChannelEvent) :
    (run (observed (Http2Channel.step env) recordRefused) (construct connectTimeoutEnabled, [])
      events).map Prod.fst =
      run (Http2Channel.step env) (construct connectTimeoutEnabled) events :=
  run_observed (Http2Channel.step env) recordRefused _ [] events

/-- Two RPCs wait for the connection, which has a stream for both of them. -/
def bothAccepted : List ChannelEvent :=
  [.start bidiRequest, .start bidiRequest, .connected fun _ => none, .settingsFrameReceived]

/-- Both requests are sent on streams that are attached. -/
theorem usesAttachedStreams_bothAccepted :
    ∃ final, run (observed (Http2Channel.step plainEnvironment) recordRefused) (construct true, [])
        bothAccepted = some final ∧ UsesAttachedStreams final.1 := by
  have hfinal : (run (observed (Http2Channel.step plainEnvironment) recordRefused)
      (construct true, []) bothAccepted).any (fun final => final.2 = []) = true := by
    decide
  obtain ⟨⟨final, refused⟩, hrun⟩ := Option.isSome_iff_exists.mp
    (show (run (observed (Http2Channel.step plainEnvironment) recordRefused)
      (construct true, []) bothAccepted).isSome = true by decide)
  rw [hrun, Option.any_some, decide_eq_true_eq] at hfinal
  refine ⟨(final, refused), hrun,
    (usesAttachedStreams_iff plainEnvironment true bothAccepted final refused hrun).mpr ?_⟩
  intro i remaining expired handler hloop hstacks hhandler hopen
  simp [show refused = [] from hfinal]

/-- One RPC waits for the connection and is refused a stream; SETTINGS arrive before its deferred
failure. -/
def refusedThenSettings : List ChannelEvent :=
  [.start bidiRequest, .connected fun _ => some "ReceivedGOAWAY", .settingsFrameReceived]

/-- The request is about to be sent on a missing stream. -/
theorem not_usesAttachedStreams_refusedThenSettings :
    ∃ final, run (Http2Channel.step plainEnvironment) (construct true) refusedThenSettings =
      some final ∧ ¬ UsesAttachedStreams final := by
  have hfinal : (run (Http2Channel.step plainEnvironment) (construct true) refusedThenSettings).any
      (fun final => final.loop = some (.settings [0] []) && final.stacksEmpty &&
        final.handlers[0]?.any fun handler =>
          handler.rpc.Open && handler.rpc.stream.isNone) = true := by
    decide
  obtain ⟨final, hrun⟩ := Option.isSome_iff_exists.mp
    (show (run (Http2Channel.step plainEnvironment) (construct true)
      refusedThenSettings).isSome = true by decide)
  rw [hrun, Option.any_some] at hfinal
  simp only [Bool.and_eq_true, decide_eq_true_eq, Option.any_eq_true] at hfinal
  obtain ⟨⟨hloop, hstacks⟩, handler, hhandler, hopen, hstream⟩ := hfinal
  refine ⟨final, hrun, fun huses => ?_⟩
  have hattached := huses.settings 0 [] [] handler hloop hstacks hhandler hopen
  rw [Option.isNone_iff_eq_none.mp hstream] at hattached
  cases hattached

end QtGrpc.Http2
