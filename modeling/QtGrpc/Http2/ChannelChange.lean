import QtGrpc.Http2.ReceiveLimit
import QtGrpc.Http2.StartCalls

/-!
# Another channel is attached

`attachChannel` cancels the operations of the client one by one, and each leaves the set when it
finishes. The loop meets all of them, whatever else finishes on the way, and a cancellation
finishes every operation with a handler. It does nothing to an operation that was turned down
before it got one, nor to one that finished inside its start call; both stay in the set.
-/

namespace QtGrpc.Http2

namespace Rpc

/-- The handler, its operation and its channel stay. -/
structure Remains (rpc next : Rpc) : Prop where
  alive : next.alive = rpc.alive
  context : next.context = rpc.context
  channelAlive : next.channelAlive = rpc.channelAlive

/-- Nothing happens. -/
theorem Remains.refl (rpc : Rpc) : Remains rpc rpc := ⟨rfl, rfl, rfl⟩

/-- Two steps after which everything is still there. -/
theorem Remains.trans {a b c : Rpc} (hab : Remains a b) (hbc : Remains b c) : Remains a c :=
  ⟨hbc.alive.trans hab.alive, hbc.context.trans hab.context, hbc.channelAlive.trans hab.channelAlive⟩

/-- A change of something else comes first. -/
theorem Remains.after {a b c : Rpc} (h : Remains b c) (halive : b.alive = a.alive)
    (hcontext : b.context = a.context) (hchannelAlive : b.channelAlive = a.channelAlive) :
    Remains a c := Remains.trans ⟨halive, hcontext, hchannelAlive⟩ h

/-- The end of an operation takes nothing away. -/
theorem contextFinished_remains (rpc : Rpc) (status : QGrpcStatus) (after : List Continuation) :
    Remains rpc (rpc.contextFinished status after) := by
  unfold contextFinished
  split <;> exact ⟨rfl, rfl, rfl⟩

/-- Finishing takes nothing away. -/
theorem finish_remains (rpc : Rpc) (status : QGrpcStatus) : Remains rpc (rpc.finish status) := by
  unfold finish
  split
  · exact ⟨rfl, rfl, rfl⟩
  · split
    · exact .refl rpc
    · exact (contextFinished_remains _ status _).after rfl rfl rfl

/-- Nor does finishing later. -/
theorem asyncFinish_remains (rpc : Rpc) (status : QGrpcStatus) :
    Remains rpc (rpc.asyncFinish status) := by
  unfold asyncFinish
  split <;> exact ⟨rfl, rfl, rfl⟩

/-- Cancelling takes nothing away. -/
theorem cancelWithStatus_remains (rpc : Rpc) (status : QGrpcStatus) :
    Remains rpc (rpc.cancelWithStatus status) := by
  unfold cancelWithStatus
  split
  · exact .refl rpc
  · dsimp only
    split
    · split <;> exact (finish_remains _ status).after rfl rfl rfl
    · exact (finish_remains _ status).after rfl rfl rfl

/-- Handing a message to the stream takes nothing away. -/
theorem sendNext_remains (endStreamAtFirstData : Bool) (rpc : Rpc) :
    Remains rpc (rpc.sendNext endStreamAtFirstData) := by
  unfold sendNext
  split <;> exact ⟨rfl, rfl, rfl⟩

/-- The work on the queue takes nothing away. -/
theorem processQueue_remains (endStreamAtFirstData : Bool) (rpc : Rpc) :
    Remains rpc (rpc.processQueue endStreamAtFirstData) := by
  unfold processQueue
  split
  · exact .refl rpc
  · split
    · exact .refl rpc
    · split
      · exact .refl rpc
      · split
        · exact .refl rpc
        · exact (sendNext_remains _ _).after rfl rfl rfl

/-- Writing a message takes nothing away. -/
theorem writeMessage_remains (options : HandlerOptions) (rpc : Rpc) (data : Bytes)
    (compressed : Option Bytes) : Remains rpc (rpc.writeMessage options data compressed) := by
  unfold writeMessage
  split
  · exact .refl rpc
  · split
    · exact finish_remains rpc _
    · exact (processQueue_remains _ _).after rfl rfl rfl

/-- Closing the request takes nothing away. -/
theorem writesDone_remains (options : HandlerOptions) (rpc : Rpc) :
    Remains rpc (rpc.writesDone options) := by
  unfold writesDone
  split
  · exact .refl rpc
  · dsimp only
    split
    · exact ⟨rfl, rfl, rfl⟩
    · exact (processQueue_remains _ _).after rfl rfl rfl

/-- Sending the request takes nothing away. -/
theorem sendInitialRequest_remains (options : HandlerOptions) (rpc : Rpc) (sendHEADERS : Bool) :
    Remains rpc (rpc.sendInitialRequest options sendHEADERS) := by
  unfold sendInitialRequest
  split
  · exact .refl rpc
  · split
    · exact asyncFinish_remains rpc _
    · exact (processQueue_remains _ _).after rfl rfl rfl

/-- The end of an upload takes nothing away. -/
theorem uploadFinished_remains (options : HandlerOptions) (rpc : Rpc) :
    Remains rpc (rpc.uploadFinished options) := by
  unfold uploadFinished
  extract_lets scheduled
  have hscheduled : Remains rpc scheduled := by
    unfold scheduled
    split <;> exact ⟨rfl, rfl, rfl⟩
  split
  · exact hscheduled
  · exact hscheduled.trans (processQueue_remains _ _)

/-- Received headers take nothing away. -/
theorem headersReceived_remains (env : Environment) (options : HandlerOptions) (rpc : Rpc)
    (headers : HttpHeader) (endStream : Bool) :
    Remains rpc (rpc.headersReceived env options headers endStream) := by
  unfold headersReceived
  split
  · exact ⟨rfl, rfl, rfl⟩
  split
  · exact .refl rpc
  dsimp only
  split
  · exact ⟨rfl, rfl, rfl⟩
  split
  · exact (finish_remains _ _).after rfl rfl rfl
  · exact ⟨rfl, rfl, rfl⟩
  · exact (finish_remains _ _).after rfl rfl rfl

/-- Received messages take nothing away. -/
theorem receiveNext_remains (options : HandlerOptions) (rpc : Rpc) (endStream : Bool)
    (reads : List ReadResult) : Remains rpc (rpc.receiveNext options endStream reads) := by
  unfold receiveNext messageReceived
  split
  · dsimp only
    split
    · exact ⟨rfl, rfl, rfl⟩
    · split <;> exact (finish_remains _ _).after rfl rfl rfl
  · exact (finish_remains _ _).after rfl rfl rfl
  · dsimp only
    split
    · exact (finish_remains _ _).after rfl rfl rfl
    · split <;> exact ⟨rfl, rfl, rfl⟩

/-- Losing the stream leaves the handler, its operation and its channel. -/
theorem dropStream_remains (rpc : Rpc) : Remains rpc rpc.dropStream := by
  unfold dropStream
  split
  · split <;> exact ⟨rfl, rfl, rfl⟩
  · exact .refl rpc

/-- The user's cancellation takes nothing away. -/
theorem cancel_remains (rpc : Rpc) : Remains rpc rpc.cancel := by
  unfold cancel
  split
  · exact .refl rpc
  · exact cancelWithStatus_remains rpc _

/-- Code that runs on takes nothing away, unless it is the owner's. -/
theorem resume_remains {rpc next : Rpc} (options : HandlerOptions) (reads : List ReadResult)
    (hown : rpc.OwnStack) (hstep : rpc.resume options reads = some next) : Remains rpc next := by
  unfold resume at hstep
  split at hstep
  · cases hstep
    exact ⟨rfl, rfl, rfl⟩
  · cases hstep
    exact (receiveNext_remains options _ _ reads).after rfl rfl rfl
  · split at hstep
    · cases hstep
    · split at hstep <;> cases hstep
      · exact sendNext_remains _ rpc
      · exact ⟨rfl, rfl, rfl⟩
  · cases hstep
    exact ⟨rfl, rfl, rfl⟩
  · cases hstep
    split
    · exact (cancelWithStatus_remains _ _).after rfl rfl rfl
    · exact ⟨rfl, rfl, rfl⟩
  · cases hstep
    exact (dropStream_remains _).after rfl rfl rfl
  · rename_i rest hstack
    exact absurd (by rw [hstack]; exact List.mem_cons_self) hown.2
  · cases hstep

/-- Only the deferred deletion takes the handler away, and only its owner the operation. -/
theorem step_remains (env : Environment) (options : HandlerOptions) (rpc next : Rpc)
    (input : Input) (hinput : input.own = true) (hown : rpc.OwnStack)
    (hstep : step env options rpc input = some next) :
    Remains rpc next ∨ next.channelAlive = rpc.channelAlive ∧
      (input = .deferredDelete ∧ rpc.stack = [] ∧ next.context = rpc.context ∨
        input = .contextDestroyed ∧ next.alive = rpc.alive) := by
  cases input
  all_goals simp only [step] at hstep
  case headersReceived headers endStream =>
    split at hstep <;> cases hstep
    exact .inl (headersReceived_remains env options rpc headers endStream)
  case dataReceived data endStream =>
    split at hstep <;> cases hstep
    unfold dataReceived
    split
    · exact .inl (.refl rpc)
    · split <;> exact .inl ⟨rfl, rfl, rfl⟩
  case errorOccurred code text =>
    split at hstep
    · cases hstep
    · split at hstep
      · cases hstep
      · split at hstep <;> cases hstep
        · exact .inl (.refl rpc)
        · exact .inl ((finish_remains _ _).after rfl rfl rfl)
  case bytesWritten bytes =>
    split at hstep <;> cases hstep
    exact .inl ⟨rfl, rfl, rfl⟩
  case uploadFinished =>
    split at hstep
    · cases hstep
    · split at hstep <;> cases hstep
      exact .inl ((uploadFinished_remains options _).after rfl rfl rfl)
  case uploadDropped =>
    split at hstep
    · cases hstep
    · split at hstep <;> cases hstep
      exact .inl ⟨rfl, rfl, rfl⟩
  case streamStateChanged state =>
    obtain ⟨stream, -, rfl⟩ := Option.map_eq_some_iff.mp hstep
    exact .inl ⟨rfl, rfl, rfl⟩
  case sendDATAAccepted =>
    split at hstep <;> cases hstep
    exact .inl ⟨rfl, rfl, rfl⟩
  case sendDATARefused =>
    split at hstep <;> cases hstep
    exact .inl ⟨rfl, rfl, rfl⟩
  case sendDATAReturned =>
    split at hstep <;> cases hstep
    exact .inl ⟨rfl, rfl, rfl⟩
  case attachStream => cases hinput
  case createStreamFailed error => cases hinput
  case sendInitialRequest sendHEADERS => cases hinput
  case socketError errorCode => cases hinput
  case connectionDeleted => cases hinput
  case channelDestroyed => cases hinput
  case writeMessage data compressed =>
    split at hstep <;> cases hstep
    split
    · exact .inl (writeMessage_remains options rpc data compressed)
    · exact .inl (.refl rpc)
  case writeUnserializable messageTooLarge lastErrorString =>
    split at hstep <;> cases hstep
    split
    · exact .inl (contextFinished_remains rpc _ _)
    · exact .inl (.refl rpc)
  case writesDone =>
    split at hstep <;> cases hstep
    split
    · exact .inl (writesDone_remains options rpc)
    · exact .inl (.refl rpc)
  case cancel =>
    split at hstep <;> cases hstep
    exact .inl (cancel_remains rpc)
  case slotReturned =>
    split at hstep <;> cases hstep
    exact .inl ⟨rfl, rfl, rfl⟩
  case resume reads => exact .inl (resume_remains options reads hown hstep)
  case deadlineTimeout =>
    split at hstep <;> cases hstep
    exact .inl ((cancelWithStatus_remains _ _).after rfl rfl rfl)
  case callback callback =>
    split at hstep
    · cases hstep
    cases callback with
    | messageWritten =>
      simp only at hstep
      split at hstep
      · cases hstep
      · split at hstep <;> cases hstep <;> exact .inl ⟨rfl, rfl, rfl⟩
    | asyncFinish status =>
      simp only at hstep
      split at hstep <;> cases hstep
      exact .inl ((finish_remains _ _).after rfl rfl rfl)
    | contextFinished status =>
      simp only at hstep
      split at hstep <;> cases hstep
      exact .inl ((contextFinished_remains _ _ _).after rfl rfl rfl)
  case deferredDelete =>
    split at hstep <;> cases hstep
    rename_i hready
    have hdropped := dropStream_remains { rpc with alive := false, deadlineTimer := false }
    exact .inr ⟨hdropped.channelAlive, .inl ⟨rfl, ((atEventLoop_iff rpc).mp hready.1).1,
      hdropped.context⟩⟩
  case contextDestroyed =>
    split at hstep <;> cases hstep
    exact .inr ⟨rfl, .inr ⟨rfl, rfl⟩⟩

/-- Received messages do not undo the end of an operation. -/
theorem receiveNext_finished {rpc : Rpc} (h : rpc.operationFinished = true)
    (options : HandlerOptions) (endStream : Bool) (reads : List ReadResult) :
    (rpc.receiveNext options endStream reads).operationFinished = true := by
  unfold receiveNext messageReceived
  split
  · dsimp only
    split
    · exact h
    · split <;> exact (finish_beside _ _).finished h
  · exact (finish_beside _ _).finished h
  · dsimp only
    split
    · exact (finish_beside _ _).finished h
    · split <;> exact h

/-- A finished operation stays so, whatever has happened to it before. -/
theorem step_keepsFinished {env : Environment} {options : HandlerOptions} {rpc next : Rpc}
    {input : Input} (hstep : step env options rpc input = some next)
    (hfinished : rpc.operationFinished = true) : next.operationFinished = true := by
  by_cases hdata : ∃ data endStream, input = .dataReceived data endStream
  · obtain ⟨data, endStream, rfl⟩ := hdata
    simp only [step] at hstep
    split at hstep <;> cases hstep
    unfold dataReceived
    split
    · exact hfinished
    · split <;> exact hfinished
  by_cases hloop : ∃ reads endStream rest, input = .resume reads ∧
      rpc.stack = .dataReceived endStream :: rest
  · obtain ⟨reads, endStream, rest, rfl, hstack⟩ := hloop
    simp only [step, resume, hstack, Option.some.injEq] at hstep
    rw [← hstep]
    refine receiveNext_finished ?_ options endStream reads
    exact hfinished
  · exact (step_beside env options rpc next input (fun data endStream h => hdata ⟨_, _, h⟩)
      (fun reads endStream rest h hstack => hloop ⟨_, _, _, h, hstack⟩) hstep).finished hfinished

/-- An RPC whose end has been reported, so that a cancellation of an unfinished one ends it. -/
structure Cancellable (rpc : Rpc) : Prop where
  own : rpc.OwnStack
  channelAlive : rpc.channelAlive = true
  reported : rpc.state.ended = true → rpc.operationFinished = true ∨ rpc.context = false

/-- Code beside the data handler reports what it ends. -/
theorem Cancellable.beside {rpc next : Rpc} (h : Cancellable rpc) (hown : next.OwnStack)
    (hchannelAlive : next.channelAlive = rpc.channelAlive) (hbeside : Beside rpc next) :
    Cancellable next where
  own := hown
  channelAlive := hchannelAlive.trans h.channelAlive
  reported hended := by
    rcases hbeside.ended hended with hended | hreported
    · exact (h.reported hended).imp hbeside.finished hbeside.context
    · exact hreported

/-- A handler that finishes has reported it. -/
theorem Cancellable.finish {rpc : Rpc} (h : Cancellable rpc) (status : QGrpcStatus) :
    Cancellable (rpc.finish status) :=
  h.beside (finish_ownStack status h.own) (finish_remains rpc status).channelAlive
    (finish_beside rpc status)

/-- The cancellation of an open handler finishes it. -/
theorem cancelWithStatus_eq_finish {rpc : Rpc} (status : QGrpcStatus)
    (hopen : rpc.state.ended = false) : ∃ cancelled : Rpc,
      rpc.cancelWithStatus status = cancelled.finish status ∧ cancelled.state = .cancelled ∧
      cancelled.context = rpc.context := by
  unfold cancelWithStatus
  rw [if_neg (by simp [hopen])]
  dsimp only
  split
  · split <;> exact ⟨_, rfl, rfl, rfl⟩
  · exact ⟨_, rfl, rfl, rfl⟩

/-- The cancellation of an operation finishes it, unless its handler is gone. -/
theorem Cancellable.cancel_finished {rpc : Rpc} (h : Cancellable rpc) (halive : rpc.alive = true)
    (hcontext : rpc.context = true) : rpc.cancel.operationFinished = true := by
  unfold cancel
  split
  · rename_i hnothing
    simpa [h.channelAlive, halive] using hnothing
  · rename_i hsomething
    have hopen : rpc.state.ended = false := by
      by_contra hended
      rcases h.reported (by simpa using hended) with hfinished | hgone
      · exact hsomething (.inl hfinished)
      · rw [hcontext] at hgone
        cases hgone
    obtain ⟨cancelled, hcancel, hstate, hsame⟩ := cancelWithStatus_eq_finish
      ⟨.cancelled, "Cancelled by client"⟩ hopen
    rw [hcancel]
    refine (finish_settles cancelled _ (by rw [hstate]; simp)).resolve_right ?_
    rw [hsame, hcontext]
    simp

/-- Received messages end no RPC without a report. -/
theorem receiveNext_cancellable {rpc : Rpc} (h : Cancellable rpc) (options : HandlerOptions)
    (endStream : Bool) (reads : List ReadResult) :
    Cancellable (rpc.receiveNext options endStream reads) := by
  have hparsed (parser : GrpcDataParser) : Cancellable { rpc with grpcDataParser := parser } :=
    ⟨h.own, h.channelAlive, h.reported⟩
  unfold receiveNext messageReceived
  split
  · dsimp only
    split
    · exact hparsed _
    · split <;> exact (hparsed _).finish _
  · exact (hparsed _).finish _
  · dsimp only
    split
    · exact (hparsed _).finish _
    · split
      · exact ⟨by simpa [OwnStack, push, emit] using h.own, h.channelAlive, h.reported⟩
      · exact ⟨by simpa [OwnStack, push] using h.own, h.channelAlive, h.reported⟩

/-- No input of its own makes an RPC end without a report. -/
theorem step_cancellable {env : Environment} {options : HandlerOptions} {rpc next : Rpc}
    {input : Input} (h : Cancellable rpc) (hinput : input.own = true)
    (hstep : step env options rpc input = some next) : Cancellable next := by
  have hown := (step_stays env options rpc next input hinput h.own hstep).stack h.own
  have hchannelAlive : next.channelAlive = rpc.channelAlive := by
    rcases step_remains env options rpc next input hinput h.own hstep with hremains | hgone
    · exact hremains.channelAlive
    · exact hgone.1
  by_cases hdata : ∃ data endStream, input = .dataReceived data endStream
  · obtain ⟨data, endStream, rfl⟩ := hdata
    refine ⟨hown, hchannelAlive.trans h.channelAlive, ?_⟩
    simp only [step] at hstep
    split at hstep <;> cases hstep
    unfold dataReceived
    split
    · exact h.reported
    · split <;> exact h.reported
  by_cases hloop : ∃ reads endStream rest, input = .resume reads ∧
      rpc.stack = .dataReceived endStream :: rest
  · obtain ⟨reads, endStream, rest, rfl, hstack⟩ := hloop
    simp only [step, resume, hstack, Option.some.injEq] at hstep
    rw [← hstep]
    refine receiveNext_cancellable ?_ options endStream reads
    exact ⟨(pop_stays hstack).stack h.own, h.channelAlive, h.reported⟩
  · exact h.beside hown hchannelAlive (step_beside env options rpc next input
      (fun data endStream hinput => hdata ⟨_, _, hinput⟩)
      (fun reads endStream rest hinput hstack => hloop ⟨_, _, _, hinput, hstack⟩) hstep)

/-- A new RPC has not ended. -/
theorem fresh_cancellable (options : HandlerOptions) : Cancellable (fresh options) :=
  ⟨by simp [OwnStack, fresh], rfl, fun hended => nomatch hended⟩

/-- Writing a message ends no RPC without a report. -/
theorem writeMessage_cancellable {rpc : Rpc} (h : Cancellable rpc) (options : HandlerOptions)
    (data : Bytes) (compressed : Option Bytes) :
    Cancellable (rpc.writeMessage options data compressed) :=
  h.beside ((writeMessage_stays options rpc data compressed).stack h.own)
    (writeMessage_remains options rpc data compressed).channelAlive
    (writeMessage_beside options rpc data compressed)

/-- What is finished later has not ended yet. -/
theorem asyncFinish_cancellable {rpc : Rpc} (h : Cancellable rpc) (status : QGrpcStatus) :
    Cancellable (rpc.asyncFinish status) :=
  h.beside ((asyncFinish_stays rpc status).stack h.own)
    (asyncFinish_remains rpc status).channelAlive (asyncFinish_beside rpc status)

/-- Losing the stream ends no RPC. -/
theorem dropStream_cancellable {rpc : Rpc} (h : Cancellable rpc) : Cancellable rpc.dropStream :=
  h.beside (by simpa [OwnStack] using h.own) (dropStream_remains rpc).channelAlive
    (dropStream_beside rpc)

/-- Without its operation an RPC has nothing to report. -/
theorem destroy_cancellable {rpc : Rpc} (h : Cancellable rpc) : Cancellable rpc.destroy :=
  h.beside ((destroy_stays rpc).stack h.own) (dropStream_remains _).channelAlive
    (destroy_beside rpc)

end Rpc

/-- Sending the request ends no RPC without a report. -/
theorem ChannelHandler.sendInitialRequest_cancellable {handler : ChannelHandler}
    (h : handler.rpc.Cancellable) (sendHEADERS : Bool) :
    (handler.sendInitialRequest sendHEADERS).rpc.Cancellable := by
  have hown := Http2Channel.sendInitialRequest_ownStack sendHEADERS h.own
  revert hown
  unfold ChannelHandler.sendInitialRequest
  split
  · exact fun _ => h
  · exact fun hown => h.beside hown
      (Rpc.sendInitialRequest_remains handler.options handler.rpc sendHEADERS).channelAlive
      (Rpc.sendInitialRequest_beside handler.options handler.rpc sendHEADERS)

namespace Http2Channel

/-- Every RPC of the channel can be cancelled. -/
def AllCancellable (channel : Http2Channel) : Prop :=
  ∀ handler ∈ channel.handlers, handler.rpc.Cancellable

/-- One handler changes to one that has reported its end. -/
theorem AllCancellable.set {channel next : Http2Channel} (h : channel.AllCancellable) {i : Nat}
    {handler : ChannelHandler} (hhandlers : next.handlers = channel.handlers.set i handler)
    (hhandler : handler.rpc.Cancellable) : next.AllCancellable := by
  intro other hmem
  rw [hhandlers] at hmem
  rcases List.mem_or_eq_of_mem_set hmem with hmem | rfl
  · exact h other hmem
  · exact hhandler

/-- The handlers that are left are handlers there were. -/
theorem AllCancellable.deleteExpired {channel : Http2Channel} (h : channel.AllCancellable)
    (expired : List Nat) {handler : ChannelHandler} (hmem : handler ∈ channel.deleteExpired expired) :
    handler.rpc.Cancellable := by
  obtain ⟨i, hi, rfl⟩ := List.mem_mapIdx.mp hmem
  have hbefore := h _ (List.getElem_mem hi)
  split
  · exact Rpc.destroy_cancellable hbefore
  · exact hbefore

/-- A new connection ends no RPC without a report. -/
theorem AllCancellable.createHttp2Connection {channel : Http2Channel} (h : channel.AllCancellable)
    (streamError : Nat → Option String) : (channel.createHttp2Connection streamError).AllCancellable := by
  intro handler hmem
  obtain ⟨i, hi, rfl⟩ := List.mem_mapIdx.mp hmem
  have hbefore := h _ (List.getElem_mem hi)
  split
  · exact hbefore
  split
  · exact Rpc.destroy_cancellable hbefore
  · unfold ChannelHandler.createHttp2Stream
    split
    · exact ⟨hbefore.own, hbefore.channelAlive, hbefore.reported⟩
    · exact Rpc.asyncFinish_cancellable hbefore _

/-- A started RPC has not ended, or has reported it. -/
theorem AllCancellable.processOperation {channel : Http2Channel} (h : channel.AllCancellable)
    (request : StartRequest) : (channel.processOperation request).AllCancellable := by
  have happend {next : Http2Channel} {handler : ChannelHandler}
      (hhandlers : next.handlers = channel.handlers ++ [handler])
      (hhandler : handler.rpc.Cancellable) : next.AllCancellable := by
    intro other hmem
    rw [hhandlers] at hmem
    rcases List.mem_append.mp hmem with hmem | hmem
    · exact h other hmem
    · rwa [List.mem_singleton.mp hmem]
  unfold Http2Channel.processOperation
  split
  · exact happend rfl ⟨by simp [Rpc.OwnStack, Rpc.fresh], rfl, fun hended => nomatch hended⟩
  extract_lets handler
  have hhandler : handler.rpc.Cancellable :=
    Rpc.writeMessage_cancellable (Rpc.fresh_cancellable request.options) _ _ _
  split
  · exact happend rfl (Rpc.asyncFinish_cancellable hhandler _)
  extract_lets attached sent added
  have hattached : attached.rpc.Cancellable := by
    unfold attached
    split
    · exact ⟨hhandler.own, hhandler.channelAlive, hhandler.reported⟩
    · exact hhandler
  have hsent : sent.rpc.Cancellable := by
    unfold sent
    split
    · exact ChannelHandler.sendInitialRequest_cancellable hattached request.sendHEADERS
    · exact hattached
  split
  · exact happend rfl hsent
  · exact happend rfl hsent

/-- A visit of one of the loops ends no RPC without a report. -/
theorem AllCancellable.visit {channel next : Http2Channel} (h : channel.AllCancellable)
    {sendHEADERS : Bool} (hvisit : channel.visit sendHEADERS = some next) :
    next.AllCancellable := by
  unfold Http2Channel.visit at hvisit
  split at hvisit
  · cases hvisit
  · obtain ⟨handler, hhandler, rfl⟩ := Option.map_eq_some_iff.mp hvisit
    have hbefore := h handler (List.mem_of_getElem? hhandler)
    split
    · exact h
    split
    · exact h
    · exact h.set rfl (hbefore.finish _)
  · rename_i expired hloop
    cases hvisit
    intro handler hmem
    obtain ⟨before, hbefore, rfl⟩ := List.mem_map.mp hmem
    exact Rpc.dropStream_cancellable (h.deleteExpired expired hbefore)
  · split at hvisit
    · cases hvisit
    rename_i handler hhandler
    have hbefore := h handler (List.mem_of_getElem? hhandler)
    split at hvisit
    · cases hvisit
      exact h
    split at hvisit
    · cases hvisit
      exact h
    split at hvisit <;> cases hvisit
    exact h.set rfl (ChannelHandler.sendInitialRequest_cancellable hbefore sendHEADERS)
  · rename_i expired hloop
    cases hvisit
    exact fun handler hmem => h.deleteExpired expired hmem

/-- No event of the channel makes an RPC end without a report. -/
theorem step_cancellable {env : Environment} {channel next : Http2Channel} {event : ChannelEvent}
    (h : channel.AllCancellable) (hstep : step env channel event = some next) :
    next.AllCancellable := by
  cases event <;> simp only [step] at hstep
  case connected streamError =>
    split at hstep <;> cases hstep
    exact @AllCancellable.createHttp2Connection { channel with socket := .connected } h streamError
  case settingsFrameReceived =>
    split at hstep
    · split at hstep <;> cases hstep <;> exact h
    · cases hstep
  case socketError errorCode =>
    split at hstep <;> cases hstep
    exact h
  case connectTimeout =>
    split at hstep <;> cases hstep
    exact h
  case reconnectTimeout =>
    split at hstep <;> cases hstep
    exact h
  case start request =>
    split at hstep <;> cases hstep
    exact h.processOperation request
  case visit sendHEADERS =>
    split at hstep
    · exact h.visit hstep
    · cases hstep
  case rpc index input =>
    split at hstep
    · cases hstep
    rename_i handler hhandler
    split at hstep
    · rename_i hmay
      obtain ⟨rpc, hrpc, rfl⟩ := Option.map_eq_some_iff.mp hstep
      exact h.set rfl (Rpc.step_cancellable (h handler (List.mem_of_getElem? hhandler))
        (Bool.and_eq_true_iff.mp hmay).1 hrpc)
    · cases hstep

/-- A new operation exists. -/
theorem processOperation_context {channel : Http2Channel} {request : StartRequest}
    {handler : ChannelHandler}
    (hhandlers : (channel.processOperation request).handlers = channel.handlers ++ [handler]) :
    handler.rpc.context = true := by
  have hlast {other : ChannelHandler} {next : Http2Channel}
      (hsame : next.handlers = channel.handlers ++ [handler])
      (hnext : next.handlers = channel.handlers ++ [other]) (hother : other.rpc.context = true) :
      handler.rpc.context = true := by
    rw [hnext] at hsame
    rwa [← List.singleton_inj.mp (List.append_cancel_left hsame)]
  unfold processOperation at hhandlers
  split at hhandlers
  · exact hlast hhandlers rfl rfl
  extract_lets handler' at hhandlers
  have hhandler : handler'.rpc.context = true :=
    (Rpc.writeMessage_remains request.options (Rpc.fresh request.options) _ _).context
  split at hhandlers
  · exact hlast hhandlers rfl ((Rpc.asyncFinish_remains _ _).context.trans hhandler)
  extract_lets attached sent added at hhandlers
  have hattached : attached.rpc.context = true := by
    unfold attached
    split <;> exact hhandler
  have hsent : sent.rpc.context = true := by
    unfold sent ChannelHandler.sendInitialRequest
    split
    · split
      · exact hattached
      · exact (Rpc.sendInitialRequest_remains _ _ _).context.trans hattached
    · exact hattached
  split at hhandlers
  · exact hlast hhandlers rfl hsent
  · exact hlast hhandlers rfl hsent

end Http2Channel

/-- The operation that its owner destroys. -/
def ChannelEvent.destroys : ChannelEvent → Option Nat
  | .rpc index .contextDestroyed => some index
  | _ => none

namespace Client

variable {set : FlatSet OperationId}

/-- Every pointer the innermost loop comes to is that of an operation, and at its end the set is
empty and all operations that were in it have finished. -/
structure ReplacesAll (client : Client set) : Prop where
  visits : ∀ loop loops, client.loops = loop :: loops → loop.position ≠ loop.last →
    ∃ op rpc, set.read client.activeStreams loop.position = some op ∧
      client.rpc? op = some rpc ∧ rpc.context = true
  ends : ∀ loop loops, client.loops = loop :: loops → loop.position = loop.last →
    set.elements client.activeStreams = [] ∧ ∀ op ∈ loop.operations, ∃ rpc,
      client.rpc? op = some rpc ∧ rpc.operationFinished = true

/-- The operations in the set are unfinished and have handlers when another channel is attached,
and no slot that the loop runs starts an operation or destroys one that was in the set. -/
def Replaceable (client : Client set) : ClientEvent → Prop
  | .attachChannel channel => client.channel ≠ some channel →
    ∀ op ∈ set.elements client.activeStreams, ∀ rpc ∈ client.rpc? op,
      rpc.operationFinished = false ∧ rpc.alive = true
  | .start _ => client.loops = []
  | .channel i event => ∀ j ∈ event.destroys, ∀ loop ∈ client.loops, ⟨i, j⟩ ∉ loop.operations
  | .construct _ | .cancelNext | .channelAttached | .startReturned => True

instance (client : Client set) : ∀ event, Decidable (client.Replaceable event)
  | .attachChannel channel => inferInstanceAs (Decidable (client.channel ≠ some channel →
    ∀ op ∈ set.elements client.activeStreams, ∀ rpc ∈ client.rpc? op,
      rpc.operationFinished = false ∧ rpc.alive = true))
  | .start _ => inferInstanceAs (Decidable (client.loops = []))
  | .channel i event => inferInstanceAs (Decidable (∀ j ∈ event.destroys, ∀ loop ∈ client.loops,
    ⟨i, j⟩ ∉ loop.operations))
  | .construct _ | .cancelNext | .channelAttached | .startReturned => .isTrue trivial

/-- The operations in the set exist; during a loop they wait to be cancelled by it. -/
structure Replacing (client : Client set) : Prop where
  cancellable : ∀ channel ∈ client.channels, channel.AllCancellable
  active : ∀ op ∈ set.elements client.activeStreams, ∃ rpc, client.rpc? op = some rpc ∧
    rpc.context = true
  starting : ∀ op, client.starting = some op → client.loops = [] ∧
    ∃ rpc, client.rpc? op = some rpc ∧ rpc.context = true
  unfinished : client.loops ≠ [] → ∀ op ∈ set.elements client.activeStreams,
    ∃ rpc, client.rpc? op = some rpc ∧ rpc.operationFinished = false ∧ rpc.alive = true
  walks : ∀ loop ∈ client.loops,
    set.Walk client.activeStreams loop.position loop.last loop.operations
  met : ∀ loop ∈ client.loops, ∀ op ∈ loop.operations, ∃ rpc, client.rpc? op = some rpc ∧
    rpc.context = true ∧ (op ∈ set.elements client.activeStreams ∨ rpc.operationFinished = true)

/-- The operations that a loop comes to exist, and behind the loop none is left. -/
theorem Replacing.replacesAll (hset : set.Lawful) {client : Client set} (h : Replacing client) :
    ReplacesAll client where
  visits loop loops hloops hposition := by
    have hmem : loop ∈ client.loops := by simp [hloops]
    have hwalk := h.walks loop hmem
    obtain ⟨op, hop, hread⟩ := hwalk.reads loop.position le_rfl
      (Nat.lt_of_le_of_ne hwalk.le hposition)
    obtain ⟨rpc, hrpc, hcontext, -⟩ := h.met loop hmem op hop
    exact ⟨op, rpc, hread, hrpc, hcontext⟩
  ends loop loops hloops hposition := by
    have hmem : loop ∈ client.loops := by simp [hloops]
    have hwalk := h.walks loop hmem
    rw [hposition] at hwalk
    have hempty := hwalk.done hset
    refine ⟨hempty, fun op hop => ?_⟩
    obtain ⟨rpc, hrpc, -, hactive | hfinished⟩ := h.met loop hmem op hop
    · simp [hempty] at hactive
    · exact ⟨rpc, hrpc, hfinished⟩

/-- A new client has no loop under way. -/
theorem construct_replacing (hset : set.Lawful) : Replacing (construct set) where
  cancellable := by simp [construct]
  active := by simp [construct, hset.elements_empty]
  starting := by simp [construct]
  unfinished := by simp [construct]
  walks := by simp [construct]
  met := by simp [construct]

/-- A channel changes; during a loop its operations stay finished, and those in question stay. -/
theorem Replacing.withChannel (hset : set.Lawful) {client : Client set} (h : Replacing client)
    {i : Nat} {before after : Http2Channel} (hbefore : client.channels[i]? = some before)
    (hafter : after.AllCancellable) (hlength : before.handlers.length ≤ after.handlers.length)
    (hstarting : ∀ op, client.starting = some op → ∃ rpc,
      (client.withChannel i before after).rpc? op = some rpc ∧ rpc.context = true)
    (hkeeps : client.loops ≠ [] → ∀ j earlier later, before.handlers[j]? = some earlier →
      after.handlers[j]? = some later →
      (earlier.rpc.operationFinished = true → later.rpc.operationFinished = true) ∧
      later.rpc.alive = earlier.rpc.alive ∧
      ((∃ loop ∈ client.loops, ⟨i, j⟩ ∈ loop.operations) →
        later.rpc.context = earlier.rpc.context)) :
    Replacing (client.withChannel i before after) where
  cancellable channel hmem := by
    rcases List.mem_or_eq_of_mem_set hmem with hmem | rfl
    · exact h.cancellable channel hmem
    · exact hafter
  active := active_withChannel hset hbefore hlength (fun _ _ => context_of_leaves) h.active
  starting op hop := ⟨(h.starting op hop).1, hstarting op hop⟩
  unfinished hloops op hop := by
    obtain ⟨hmem, hstays⟩ := (mem_withChannel hset client before after).mp hop
    obtain ⟨rpc, hrpc, hunfinished, halive⟩ := h.unfinished hloops op hmem
    obtain ⟨later, hlater, ⟨-, rfl⟩ | ⟨hi, earlier, handler, hearlier, hhandler, rfl, rfl⟩⟩ :=
      rpc?_step hbefore hlength hrpc
    · exact ⟨later, hlater, hunfinished, halive⟩
    · have hleaves : earlier.rpc.leaves handler.rpc = false := by
        simpa [Http2Channel.leaves, hearlier, hhandler] using hstays hi
      obtain ⟨-, hsame, -⟩ := hkeeps hloops op.index earlier handler hearlier hhandler
      exact ⟨handler.rpc, hlater, unfinished_of_leaves hleaves hunfinished, hsame.trans halive⟩
  walks loop hloop := (h.walks loop hloop).removeAll hset _
  met loop hloop op hop := by
    obtain ⟨rpc, hrpc, hcontext, hmet⟩ := h.met loop hloop op hop
    have hloops : client.loops ≠ [] := List.ne_nil_of_mem hloop
    have hmem := @mem_withChannel set hset client i before after op
    obtain ⟨later, hlater, ⟨hi, rfl⟩ | ⟨rfl, earlier, handler, hearlier, hhandler, rfl, rfl⟩⟩ :=
      rpc?_step hbefore hlength hrpc
    · exact ⟨later, hlater, hcontext, hmet.imp_left fun hactive =>
        hmem.mpr ⟨hactive, fun heq => absurd heq hi⟩⟩
    · obtain ⟨hfinished, -, hsame⟩ := hkeeps hloops op.index earlier handler hearlier hhandler
      have hstill := hsame ⟨loop, hloop, hop⟩
      refine ⟨handler.rpc, hlater, hstill.trans hcontext, ?_⟩
      rcases hmet with hactive | hdone
      · cases hleaves : earlier.rpc.leaves handler.rpc with
        | false =>
          refine .inl (hmem.mpr ⟨hactive, fun _ => ?_⟩)
          simpa [Http2Channel.leaves, hearlier, hhandler] using hleaves
        | true =>
          simp only [Rpc.leaves, hstill, Bool.and_not_self, Bool.or_false,
            Bool.and_eq_true] at hleaves
          exact .inr hleaves.2
      · exact .inr (hfinished hdone)

/-- Another channel changes nothing for the loops. -/
theorem Replacing.construct {client : Client set} (h : Replacing client)
    (connectTimeoutEnabled : Bool) :
    Replacing { client with
      channels := client.channels ++ [.construct connectTimeoutEnabled] } where
  cancellable channel hmem := by
    rcases List.mem_append.mp hmem with hmem | hmem
    · exact h.cancellable channel hmem
    · rw [List.mem_singleton.mp hmem]
      simp [Http2Channel.AllCancellable, Http2Channel.construct, Http2Channel.attemptConnect]
  active op hop := by
    obtain ⟨rpc, hrpc, hcontext⟩ := h.active op hop
    exact ⟨rpc, rpc?_construct hrpc _, hcontext⟩
  starting op hop := by
    obtain ⟨hloops, rpc, hrpc, hcontext⟩ := h.starting op hop
    exact ⟨hloops, rpc, rpc?_construct hrpc _, hcontext⟩
  unfinished hloops op hop := by
    obtain ⟨rpc, hrpc, hunfinished⟩ := h.unfinished hloops op hop
    exact ⟨rpc, rpc?_construct hrpc _, hunfinished⟩
  walks := h.walks
  met loop hloop op hop := by
    obtain ⟨rpc, hrpc, hmet⟩ := h.met loop hloop op hop
    exact ⟨rpc, rpc?_construct hrpc _, hmet⟩

/-- The loop begins with all operations in the set. -/
theorem Replacing.attachChannel (hset : set.Lawful) {client : Client set} (h : Replacing client)
    {channel : Nat} (huser : client.userRuns = true)
    (hreplaceable : client.Replaceable (.attachChannel channel)) :
    Replacing (client.attachChannel channel) := by
  unfold Client.attachChannel
  split
  · exact h
  rename_i hchannel
  have hidle : client.starting = none := by
    simpa using (Bool.and_eq_true_iff.mp huser).1
  refine ⟨h.cancellable, h.active, fun op hop => ?_, fun _ op hop => ?_, fun loop hmem => ?_,
    fun loop hmem op hop => ?_⟩
  · rw [hidle] at hop
    cases hop
  · obtain ⟨rpc, hrpc, -⟩ := h.active op hop
    exact ⟨rpc, hrpc, hreplaceable hchannel op hop rpc hrpc⟩
  · rcases List.mem_cons.mp hmem with rfl | hmem
    · exact hset.walk client.activeStreams
    · exact h.walks loop hmem
  · rcases List.mem_cons.mp hmem with rfl | hmem
    · obtain ⟨rpc, hrpc, hcontext⟩ := h.active op hop
      exact ⟨rpc, hrpc, hcontext, .inl hop⟩
    · exact h.met loop hmem op hop

/-- Cancelling a finished operation does nothing. -/
theorem cancel_of_finished {rpc : Rpc} (h : rpc.operationFinished = true) : rpc.cancel = rpc := by
  rw [Rpc.cancel, if_pos (.inl h)]

/-- A round of the loop finishes the operation it comes to. -/
theorem Replacing.cancel (hset : set.Lawful) {client next : Client set} (h : Replacing client)
    (hidle : client.starting = none) {loop : CancelLoop} (hloop : loop ∈ client.loops)
    {op : OperationId} (hop : op ∈ loop.operations) (hcancel : client.cancel op = some next) :
    Replacing next ∧ op ∉ set.elements next.activeStreams := by
  obtain ⟨channel, handler, hchannel, hhandler, hcontext, rfl⟩ := cancel_eq_some hcancel
  have hindex := (List.getElem?_eq_some_iff.mp hhandler).1
  have hbefore := h.cancellable channel (List.mem_of_getElem? hchannel)
  have hhere := hbefore handler (List.mem_of_getElem? hhandler)
  have hremains := Rpc.cancel_remains handler.rpc
  have hdone : handler.rpc.cancel.operationFinished = true := by
    obtain ⟨rpc, hrpc, -, hactive | hfinished⟩ := h.met loop hloop op hop
    · obtain ⟨found, hfound, -, halive⟩ := h.unfinished (List.ne_nil_of_mem hloop) op hactive
      obtain rfl : handler.rpc = found := Option.some.inj
        ((rpc?_eq_some.mpr ⟨channel, handler, hchannel, hhandler, rfl⟩).symm.trans hfound)
      exact hhere.cancel_finished halive hcontext
    · obtain rfl : handler.rpc = rpc := Option.some.inj
        ((rpc?_eq_some.mpr ⟨channel, handler, hchannel, hhandler, rfl⟩).symm.trans hrpc)
      rw [cancel_of_finished hfinished, hfinished]
  have hnext := @Replacing.withChannel set hset client h op.channel channel { channel with
      handlers := channel.handlers.set op.index { handler with rpc := handler.rpc.cancel } } hchannel
    (hbefore.set rfl (hhere.beside ?_ hremains.channelAlive ?_)) (by simp)
    (fun other hother => by rw [hidle] at hother; cases hother)
    fun _ j earlier later hearlier hlater => ?_
  · refine ⟨hnext, fun hactive => ?_⟩
    obtain ⟨rpc, hrpc, hunfinished, -⟩ := hnext.unfinished (List.ne_nil_of_mem hloop) op hactive
    rw [rpc?_withChannel hchannel _ rfl, List.getElem?_set_self hindex, Option.map_some] at hrpc
    rw [← Option.some.inj hrpc, hdone] at hunfinished
    cases hunfinished
  · unfold Rpc.cancel
    split
    · exact hhere.own
    · exact (Rpc.cancelWithStatus_stays _ _).stack hhere.own
  · unfold Rpc.cancel
    split
    · exact .refl _
    · exact Rpc.cancelWithStatus_beside _ _
  · by_cases hj : op.index = j
    · subst hj
      obtain rfl := Option.some.inj (hhandler.symm.trans hearlier)
      rw [List.getElem?_set_self hindex] at hlater
      obtain rfl := Option.some.inj hlater
      exact ⟨fun _ => hdone, hremains.alive, fun _ => hremains.context⟩
    · rw [List.getElem?_set_ne hj, hearlier] at hlater
      obtain rfl := Option.some.inj hlater
      exact ⟨id, rfl, fun _ => rfl⟩

/-- A cancellation leaves the loops and the pointer in the current position as they are. -/
theorem cancel_keeps (hset : set.Lawful) {client next : Client set} {op : OperationId}
    (hcancel : client.cancel op = some next) {position last : Nat} {all : List OperationId}
    (hwalk : set.Walk client.activeStreams position last all)
    (hread : set.read client.activeStreams position = some op) :
    next.loops = client.loops ∧ set.read next.activeStreams position = some op := by
  obtain ⟨channel, handler, hchannel, hhandler, -, rfl⟩ := cancel_eq_some hcancel
  refine ⟨rfl, hwalk.read_removeAll hset (fun other hother => ?_) hread⟩
  simp only [Bool.and_eq_true, decide_eq_true_eq] at hother
  obtain ⟨hsame, hleaves⟩ := hother
  have hindex : other.index = op.index := by
    by_contra hne
    rw [Http2Channel.leaves, List.getElem?_set_ne (Ne.symm hne)] at hleaves
    split at hleaves
    · rename_i earlier later hearlier hlater
      obtain rfl := Option.some.inj (hearlier.symm.trans hlater)
      simp [Rpc.leaves] at hleaves
    · cases hleaves
  cases other
  cases op
  simp_all

/-- The loop goes on to the next position. -/
theorem Replacing.cancelNext (hset : set.Lawful) {client next : Client set} (h : Replacing client)
    {loop : CancelLoop} {loops : List CancelLoop} (hloops : client.loops = loop :: loops)
    (hreturned : client.returned = true) (hposition : loop.position ≠ loop.last)
    {op : OperationId} (hread : set.read client.activeStreams loop.position = some op)
    (hcancel : client.cancel op = some next) :
    Replacing { next with loops := { loop with position := loop.position + 1 } :: loops } := by
  have hmem : loop ∈ client.loops := by simp [hloops]
  have hidle : client.starting = none := by
    simpa using (Bool.and_eq_true_iff.mp hreturned).1
  have hwalk := h.walks loop hmem
  have hop : op ∈ loop.operations := by
    obtain ⟨found, hfound, hat⟩ := hwalk.reads loop.position le_rfl
      (Nat.lt_of_le_of_ne hwalk.le hposition)
    obtain rfl := Option.some.inj (hread.symm.trans hat)
    exact hfound
  obtain ⟨hnext, hleft⟩ := h.cancel hset hidle hmem hop hcancel
  obtain ⟨hsame, hstill⟩ := cancel_keeps hset hcancel hwalk hread
  rw [hloops] at hsame
  have hnextmem : loop ∈ next.loops := by simp [hsame]
  refine ⟨hnext.cancellable, hnext.active, fun other hother => ?_, fun _ => ?_,
    fun other hother => ?_, fun other hother => ?_⟩
  · have hnone := (hnext.starting other hother).1
    rw [hsame] at hnone
    cases hnone
  · exact hnext.unfinished (by simp [hsame])
  · rcases List.mem_cons.mp hother with rfl | hother
    · refine (hnext.walks loop hnextmem).advance hset hposition fun a ha => ?_
      obtain rfl := Option.some.inj (hstill.symm.trans ha)
      exact hleft
    · exact hnext.walks other (by simp [hsame, hother])
  · rcases List.mem_cons.mp hother with rfl | hother
    · exact hnext.met loop hnextmem
    · exact hnext.met other (by simp [hsame, hother])

/-- The innermost loop ends. -/
theorem Replacing.channelAttached {client : Client set} (h : Replacing client) {loop : CancelLoop}
    {loops : List CancelLoop} (hloops : client.loops = loop :: loops) :
    Replacing { client with channel := some loop.channel, loops := loops } where
  cancellable := h.cancellable
  active := h.active
  starting op hop := by
    have hnone := (h.starting op hop).1
    rw [hloops] at hnone
    cases hnone
  unfinished _ := h.unfinished (by simp [hloops])
  walks other hother := h.walks other (by rw [hloops]; exact List.mem_cons_of_mem _ hother)
  met other hother := h.met other (by rw [hloops]; exact List.mem_cons_of_mem _ hother)

/-- A started operation belongs to the channel that is attached. -/
theorem Replacing.initOperation (hset : set.Lawful) {client next : Client set}
    (h : Replacing client) {request : StartRequest} (hloops : client.loops = [])
    (hstart : client.initOperation request = some next) : Replacing next := by
  obtain ⟨i, channel, handler, -, hchannel, hhandlers, -, -, rfl⟩ := initOperation_eq_some hstart
  have hafter : ∀ other ∈ (client.withChannel i channel (channel.processOperation request)).channels,
      other.AllCancellable := by
    intro other hmem
    rcases List.mem_or_eq_of_mem_set hmem with hmem | rfl
    · exact h.cancellable other hmem
    · exact (h.cancellable channel (List.mem_of_getElem? hchannel)).processOperation request
  refine ⟨hafter, active_withChannel hset hchannel (by simp [hhandlers])
    (fun _ _ => context_of_leaves) h.active, fun op hop => ⟨hloops, ?_⟩, fun hne => ?_,
    fun loop hmem => ?_, fun loop hmem => ?_⟩
  · obtain rfl : (⟨i, channel.handlers.length⟩ : OperationId) = op := Option.some.inj hop
    exact ⟨handler.rpc, rpc?_start hchannel hhandlers,
      Http2Channel.processOperation_context hhandlers⟩
  · exact absurd hloops hne
  · simp [Client.withChannel, hloops] at hmem
  · simp [Client.withChannel, hloops] at hmem

/-- The start call returns, and its operation enters the set. -/
theorem Replacing.startReturned (hset : set.Lawful) {client : Client set} (h : Replacing client)
    {op : OperationId} (hop : client.starting = some op) :
    Replacing { client with
      activeStreams := set.insert op client.activeStreams
      starting := none } := by
  obtain ⟨hloops, hrpc⟩ := h.starting op hop
  refine ⟨h.cancellable, fun other hother => ?_, fun _ hother => (nomatch hother), fun hne => ?_,
    fun loop hmem => ?_, fun loop hmem => ?_⟩
  · rcases (hset.mem_insert _ _ _).mp hother with rfl | hother
    · exact hrpc
    · exact h.active other hother
  · exact absurd hloops hne
  · simp [hloops] at hmem
  · simp [hloops] at hmem

/-- A channel takes a step, with the code that the loop runs if there is one. -/
theorem Replacing.channel (hset : set.Lawful) {env : Environment} {client : Client set}
    (h : Replacing client) {i : Nat} {channel next : Http2Channel} {event : ChannelEvent}
    (hchannel : client.channels[i]? = some channel) (hmay : client.mayTake i event = true)
    (hreplaceable : client.Replaceable (.channel i event))
    (hstep : channel.step env event = some next) : Replacing (client.withChannel i channel next) := by
  have hbefore := h.cancellable channel (List.mem_of_getElem? hchannel)
  have hlength := Http2Channel.step_length hstep
  refine h.withChannel hset hchannel (Http2Channel.step_cancellable hbefore hstep) hlength
    (fun op hop => ?_) fun hloops j earlier later hearlier hlater => ?_
  · obtain ⟨-, rpc, hrpc, hcontext⟩ := h.starting op hop
    cases event <;> simp only [mayTake, hop, Option.isNone_some, Bool.false_and] at hmay <;>
      try cases hmay
    case rpc j input =>
      obtain ⟨hsame, hinput⟩ : op = ⟨i, j⟩ ∧ input.startsOn = true := by simpa using hmay
      subst hsame
      obtain ⟨found, handler, hfound, hhandler, rfl⟩ := rpc?_eq_some.mp hrpc
      obtain rfl := Option.some.inj (hfound.symm.trans hchannel)
      simp only [Http2Channel.step, hhandler] at hstep
      split at hstep
      swap
      · cases hstep
      rename_i htakes
      obtain ⟨after, hafter, rfl⟩ := Option.map_eq_some_iff.mp hstep
      have hindex := (List.getElem?_eq_some_iff.mp hhandler).1
      refine ⟨after, by rw [rpc?_withChannel hchannel _ rfl]; simp [List.getElem?_set_self hindex], ?_⟩
      rcases Rpc.step_remains env handler.options handler.rpc after input
        (Bool.and_eq_true_iff.mp htakes).1 (hbefore handler (List.mem_of_getElem? hhandler)).own
        hafter with hremains | ⟨-, ⟨rfl, -⟩ | ⟨rfl, -⟩⟩
      · exact hremains.context.trans hcontext
      · cases hinput
      · cases hinput
  · have hidle : client.starting = none := by
      cases hstarting : client.starting with
      | none => rfl
      | some op => exact absurd (h.starting op hstarting).1 hloops
    have hbusy : client.loops.isEmpty = false := by simpa using hloops
    cases event <;> simp only [mayTake, hidle, hbusy, Option.isNone_none, Bool.true_and] at hmay <;>
      try cases hmay
    case rpc k input =>
      simp only [Http2Channel.step] at hstep
      split at hstep
      · cases hstep
      rename_i handler hhandler
      split at hstep
      swap
      · cases hstep
      rename_i htakes
      obtain ⟨after, hafter, rfl⟩ := Option.map_eq_some_iff.mp hstep
      by_cases hk : k = j
      swap
      · rw [List.getElem?_set_ne hk, hearlier] at hlater
        obtain rfl := Option.some.inj hlater
        exact ⟨id, rfl, fun _ => rfl⟩
      subst hk
      obtain rfl := Option.some.inj (hhandler.symm.trans hearlier)
      have hindex := (List.getElem?_eq_some_iff.mp hhandler).1
      rw [List.getElem?_set_self hindex] at hlater
      obtain rfl := Option.some.inj hlater
      refine ⟨Rpc.step_keepsFinished hafter, ?_⟩
      rcases Rpc.step_remains env handler.options handler.rpc after input
        (Bool.and_eq_true_iff.mp htakes).1 (hbefore handler (List.mem_of_getElem? hhandler)).own
        hafter with hremains | ⟨-, ⟨rfl, hstack, -⟩ | ⟨rfl, halive⟩⟩
      · exact ⟨hremains.alive, fun _ => hremains.context⟩
      · have hdepth : client.depth ⟨i, k⟩ = 0 := by
          rw [depth, rpc?_eq_some.mpr ⟨channel, handler, hchannel, hhandler, rfl⟩, Option.elim_some,
            hstack]
          rfl
        simp [Input.fromUser, hdepth] at hmay
      · refine ⟨halive, ?_⟩
        rintro ⟨loop, hloop, hmem⟩
        exact absurd hmem (hreplaceable k rfl loop hloop)

/-- One event keeps the operations waiting to be cancelled. -/
theorem step_replacing (hset : set.Lawful) {env : Environment} {client next : Client set}
    {event : ClientEvent} (h : Replacing client) (hreplaceable : client.Replaceable event)
    (hstep : step env client event = some next) : Replacing next := by
  cases event <;> simp only [step] at hstep
  case construct connectTimeoutEnabled =>
    split at hstep <;> cases hstep
    exact h.construct connectTimeoutEnabled
  case attachChannel channel =>
    split at hstep <;> cases hstep
    rename_i hready
    exact h.attachChannel hset hready.1 hreplaceable
  case cancelNext =>
    split at hstep
    · cases hstep
    split at hstep
    · rename_i loop loops hloops hready
      obtain ⟨op, hread, hstep⟩ := Option.bind_eq_some_iff.mp hstep
      obtain ⟨cancelled, hcancelled, rfl⟩ := Option.map_eq_some_iff.mp hstep
      exact h.cancelNext hset hloops hready.1 hready.2 hread hcancelled
    · cases hstep
  case channelAttached =>
    split at hstep
    · cases hstep
    rename_i loop loops hloops
    split at hstep <;> cases hstep
    exact h.channelAttached hloops
  case start request =>
    split at hstep
    · exact h.initOperation hset hreplaceable hstep
    · cases hstep
  case startReturned =>
    split at hstep
    · cases hstep
    rename_i op hop
    split at hstep <;> cases hstep
    exact h.startReturned hset hop
  case channel i event =>
    split at hstep
    · cases hstep
    rename_i channel hchannel
    split at hstep
    · rename_i hmay
      obtain ⟨after, hafter, rfl⟩ := Option.map_eq_some_iff.mp hstep
      exact h.channel hset hchannel hmay hreplaceable hafter
    · cases hstep

end Client

open Client Transition

/-- In a run of a client, whatever flat set it keeps its operations in, each loop of `attachChannel`
comes only to operations that exist, and at its end all of them have finished and the set is empty,
provided that the operations in the set are unfinished and have handlers whenever another channel
is attached, and that no slot the loop runs starts an operation or destroys one of those. -/
theorem replacesAll_of_run (set : FlatSet OperationId) (hset : set.Lawful) (env : Environment)
    (events : List ClientEvent) (final : Client set)
    (hrun : run (Client.step env) (construct set) events = some final)
    (halong : Along (Client.step env) Replaceable (construct set) events) : ReplacesAll final :=
  (run_invariant_along (Client.step env) Replaceable Replacing (fun _ _ _ => step_replacing hset)
    _ final events (construct_replacing hset) halong hrun).replacesAll hset

/-- A call with an empty message. -/
def unaryRequest : StartRequest :=
  { bidiRequest with options := { bidiOptions with rpcType := .unaryCall } }

/-- A stream and a call wait for the first channel when the second one is attached. -/
def replacedWhileConnecting : List ClientEvent :=
  [.construct true, .construct true, .attachChannel 0, .channelAttached, .start bidiRequest,
    .startReturned, .start unaryRequest, .startReturned, .attachChannel 1, .cancelNext,
    .channel 0 (.rpc 0 .slotReturned), .channel 0 (.rpc 0 (.resume [])), .cancelNext,
    .channel 0 (.rpc 1 .slotReturned), .channel 0 (.rpc 1 (.resume []))]

/-- A client whose channel is replaced while it connects. -/
theorem replacesAll_replacedWhileConnecting :
    ∃ final, run (Client.step plainEnvironment) (construct (Slots.flatSet OperationId))
      replacedWhileConnecting = some final ∧ ReplacesAll final := by
  obtain ⟨final, hrun⟩ := Option.isSome_iff_exists.mp
    (show (run (Client.step plainEnvironment) (construct (Slots.flatSet OperationId))
      replacedWhileConnecting).isSome = true by decide)
  exact ⟨final, hrun, replacesAll_of_run (Slots.flatSet OperationId) Slots.lawful plainEnvironment
    replacedWhileConnecting final hrun (by decide)⟩

/-- An RPC is turned down because the socket is not writable, and another channel is attached before
the event loop finishes it. -/
def replacedWhenTurnedDown : List ClientEvent :=
  [.construct true, .construct true, .attachChannel 0, .channelAttached,
    .channel 0 (.connected fun _ => none),
    .start { bidiRequest with writable := false, errorString := "Broken pipe" }, .startReturned,
    .attachChannel 1, .cancelNext]

/-- The loop has come to its end, and the operation is still in the set. -/
theorem not_replacesAll_replacedWhenTurnedDown :
    ∃ final, run (Client.step plainEnvironment) (construct (Slots.flatSet OperationId))
      replacedWhenTurnedDown = some final ∧ ¬ ReplacesAll final := by
  have hfinal : (run (Client.step plainEnvironment) (construct (Slots.flatSet OperationId))
      replacedWhenTurnedDown).any (fun final => final.loops.head?.any (fun loop =>
        loop.position == loop.last) && !final.activeStreams.elements.isEmpty) = true := by
    decide
  obtain ⟨final, hrun⟩ := Option.isSome_iff_exists.mp
    (show (run (Client.step plainEnvironment) (construct (Slots.flatSet OperationId))
      replacedWhenTurnedDown).isSome = true by decide)
  rw [hrun, Option.any_some] at hfinal
  simp only [Bool.and_eq_true, Option.any_eq_true, beq_iff_eq] at hfinal
  obtain ⟨⟨loop, hloop, hend⟩, hactive⟩ := hfinal
  obtain ⟨loops, hloops⟩ := List.head?_eq_some_iff.mp hloop
  refine ⟨final, hrun, fun hreplaces => ?_⟩
  have hempty : final.activeStreams.elements = [] := (hreplaces.ends loop loops hloops hend).1
  rw [hempty] at hactive
  cases hactive

end QtGrpc.Http2
