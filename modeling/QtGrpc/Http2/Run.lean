import QtGrpc.Http2.Handler
import QtGrpc.Library.Transition

/-!
# Runs of one RPC

Inputs are the events of the stream, the decisions of the channel, the calls of the user and
the turns of the event loop. Stream events and event-loop turns need an empty stack, except
that the stream may report upload progress and errors from inside `sendDATA`; user calls are
also possible while a slot runs. A slot that spins an event loop of its own, or that destroys
the operation or the channel, is not part of the model.
-/

namespace QtGrpc.Http2

/-- What can happen next. -/
inductive Input where
  | headersReceived (headers : HttpHeader) (endStream : Bool)
  | dataReceived (data : Bytes) (endStream : Bool)
  | errorOccurred (http2ErrorCode : UInt32) (errorString : String)
  | bytesWritten (bytes : UInt64)
  | uploadFinished
  | uploadDropped
  | streamStateChanged (state : StreamState)
  | sendDATAAccepted
  | sendDATARefused
  | sendDATAReturned
  | attachStream
  | createStreamFailed (error : String)
  | sendInitialRequest (sendHEADERS : Bool)
  | socketError (errorCode : String)
  | connectionDeleted
  | channelDestroyed
  | writeMessage (data : Bytes) (compressed : Option Bytes)
  | writeUnserializable (messageTooLarge : Bool) (lastErrorString : String)
  | writesDone
  | cancel
  | slotReturned
  | resume (reads : List ReadResult)
  | deadlineTimeout
  | callback (callback : Callback)
  | deferredDelete
  | contextDestroyed

namespace Rpc

/-- No code is running and the handler still exists. -/
def atEventLoop (rpc : Rpc) : Bool := rpc.stack.isEmpty && rpc.alive

/-- The stream may signal progress: from the event loop, or from inside `sendDATA`. -/
def streamMaySignal (rpc : Rpc) : Bool :=
  rpc.alive && (rpc.stack.isEmpty || rpc.stack.head? == some .sendingDATA)

/-- The user holds the operation and is running: at the top level, or inside a slot. -/
def userMayCall (rpc : Rpc) : Bool :=
  rpc.context && (rpc.stack.isEmpty || rpc.stack.head? == some .slot)

/-- `QGrpcOperation::cancel`. -/
def cancel (rpc : Rpc) : Rpc :=
  if rpc.operationFinished ∨ ¬ rpc.channelAlive ∨ ¬ rpc.alive then rpc
  else rpc.cancelWithStatus ⟨.cancelled, "Cancelled by client"⟩

/-- Continue the code on top of the stack. -/
def resume (options : HandlerOptions) (rpc : Rpc) (reads : List ReadResult) : Option Rpc :=
  match rpc.stack with
  | .finishReturn :: rest => some { rpc with stack := rest, deleteLater := true }
  | .dataReceived endStream :: rest =>
    some (({ rpc with stack := rest }).receiveNext options endStream reads)
  | .processQueue drainingQueue :: rest =>
    match rpc.stream with
    | none => none
    | some stream =>
      if ¬ stream.isUploadingDATA ∧ ¬ rpc.queue.isEmpty then
        some (rpc.sendNext options.rpcType.endStreamAtFirstData)
      else some { rpc with stack := rest, drainingQueue := drainingQueue }
  | .sendInitialRequest :: rest =>
    some { rpc with stack := rest, deadlineTimer := rpc.deadlineTimer || options.hasDeadline }
  | .cancelRequested :: rest =>
    let returned := { rpc with stack := rest }
    some (if rpc.alive then returned.cancelWithStatus ⟨.cancelled, "Cancelled by client"⟩
      else returned)
  | .connectionDeleted :: rest => some ({ rpc with stack := rest }).dropStream
  | .channelDestroyed :: rest => some ({ rpc with stack := rest }).destroy
  | _ => none

/-- Take one input, if it is possible now. -/
def step (env : Environment) (options : HandlerOptions) (rpc : Rpc) : Input → Option Rpc
  | .headersReceived headers endStream =>
    if rpc.atEventLoop ∧ rpc.stream.isSome then
      some (rpc.headersReceived env options headers endStream)
    else none
  | .dataReceived data endStream =>
    if rpc.atEventLoop ∧ rpc.stream.isSome then some (rpc.dataReceived data endStream) else none
  | .errorOccurred http2ErrorCode errorString =>
    match rpc.stream with
    | none => none
    | some stream =>
      if ¬ rpc.streamMaySignal then none
      else if ¬ stream.errorConnected then some rpc
      else
        some (({ rpc with stream := some { stream with errorConnected := false } }).finish
          ⟨http2ErrorToStatusCode http2ErrorCode, errorString⟩)
  | .bytesWritten bytes =>
    if rpc.streamMaySignal ∧ rpc.stream.isSome then
      some { rpc with bytesToWrite := rpc.bytesToWrite - bytes }
    else none
  | .uploadFinished =>
    match rpc.stream with
    | none => none
    | some stream =>
      if rpc.streamMaySignal ∧ stream.isUploadingDATA then
        some ((({ rpc with stream := some { stream with isUploadingDATA := false } }).emit
          .uploadEnded).uploadFinished options)
      else none
  | .uploadDropped =>
    match rpc.stream with
    | none => none
    | some stream =>
      if rpc.streamMaySignal ∧ stream.isUploadingDATA then
        some (({ rpc with stream := some { stream with isUploadingDATA := false } }).emit
          .uploadEnded)
      else none
  | .streamStateChanged state =>
    rpc.stream.map fun stream => { rpc with stream := some { stream with state := state } }
  | .sendDATAAccepted =>
    match rpc.stack, rpc.stream with
    | .sendDATA :: rest, some stream =>
      some (({ rpc with
          stack := .sendingDATA :: rest
          stream := some { stream with isUploadingDATA := true } }).emit .uploadStarted)
    | _, _ => none
  | .sendDATARefused =>
    match rpc.stack with
    | .sendDATA :: .processQueue drainingQueue :: rest =>
      some { rpc with stack := rest, inFlightUserWrite := false, drainingQueue := drainingQueue }
    | _ => none
  | .sendDATAReturned =>
    match rpc.stack with
    | .sendingDATA :: rest => some { rpc with stack := rest }
    | _ => none
  -- That there is no stream is asserted. The state is a precondition too; a channel breaks it for
  -- an RPC that a slot starts while the connection is lost.
  | .attachStream =>
    if rpc.atEventLoop ∧ rpc.context ∧ rpc.stream.isNone ∧ (rpc.state = .idle ∨ rpc.state.ended) then
      some (({ rpc with stream := some {} }).emit .attachStream)
    else none
  | .createStreamFailed error =>
    if rpc.atEventLoop ∧ rpc.context ∧ rpc.stream.isNone then
      some (rpc.asyncFinish ⟨.unavailable, "Unable to create an HTTP/2 stream (" ++ error ++ ")"⟩)
    else none
  | .sendInitialRequest sendHEADERS =>
    if rpc.atEventLoop ∧ rpc.context ∧ rpc.stream.isSome ∧ (rpc.state = .idle ∨ rpc.state.ended) then
      some (rpc.sendInitialRequest options sendHEADERS)
    else none
  | .socketError errorCode =>
    if ¬ rpc.atEventLoop then none
    else if ¬ rpc.context then some rpc.destroy
    else
      some ((rpc.push [.connectionDeleted]).finish
        ⟨.unavailable, "Network error occurred: " ++ errorCode⟩)
  | .connectionDeleted => if rpc.atEventLoop then some rpc.dropStream else none
  | .channelDestroyed =>
    if ¬ rpc.stack.isEmpty then none
    else
      let released := { rpc with channelAlive := false }
      if rpc.alive ∧ rpc.context then
        some ((released.push [.channelDestroyed]).finish ⟨.unavailable, "Channel destroyed"⟩)
      else some released.destroy
  | .writeMessage data compressed =>
    if rpc.userMayCall ∧ ¬ options.rpcType.endStreamAtFirstData then
      some (if rpc.channelAlive ∧ rpc.alive then rpc.writeMessage options data compressed else rpc)
    else none
  | .writeUnserializable messageTooLarge lastErrorString =>
    if rpc.userMayCall ∧ ¬ options.rpcType.endStreamAtFirstData then
      some (if rpc.channelAlive then
          rpc.contextFinished (serializationFailure messageTooLarge lastErrorString)
            [.cancelRequested]
        else rpc)
    else none
  | .writesDone =>
    if rpc.userMayCall ∧ ¬ options.rpcType.endStreamAtFirstData then
      some (if rpc.channelAlive ∧ rpc.alive then rpc.writesDone options else rpc)
    else none
  | .cancel => if rpc.userMayCall then some rpc.cancel else none
  | .slotReturned =>
    match rpc.stack with
    | .slot :: rest => some { rpc with stack := rest }
    | _ => none
  | .resume reads => rpc.resume options reads
  | .deadlineTimeout =>
    if rpc.atEventLoop ∧ rpc.deadlineTimer then
      some (({ rpc with deadlineTimer := false }).cancelWithStatus
        ⟨.deadlineExceeded, "Deadline exceeded"⟩)
    else none
  | .callback callback =>
    if ¬ rpc.stack.isEmpty ∨ callback ∉ rpc.pending then none
    else
      let taken := { rpc with pending := rpc.pending.erase callback }
      match callback with
      | .messageWritten =>
        if ¬ rpc.alive then none
        else if rpc.context ∧ ¬ rpc.state.ended ∧ ¬ options.rpcType.endStreamAtFirstData then
          some ((taken.emit .messageWritten).push [.slot])
        else some taken
      -- The timer belongs to the context, so that it outlives the handler.
      | .asyncFinish status => if rpc.context then some (taken.finish status) else none
      | .contextFinished status =>
        if rpc.context then some (taken.contextFinished status []) else none
  | .deferredDelete => if rpc.atEventLoop ∧ rpc.deleteLater then some rpc.destroy else none
  | .contextDestroyed =>
    if rpc.stack.isEmpty ∧ rpc.context then
      some { rpc with context := false, deleteLater := true }
    else none

/-- A handler under construction, before it queues the initial message. -/
def fresh (options : HandlerOptions) : Rpc :=
  { grpcDataParser := { maxReceiveSize := options.maxReceiveSize, container := [] } }

/-- How an RPC starts: its handler is constructed with the initial message, or it is turned down
before it gets a handler and finishes from the event loop. -/
inductive Starts (options : HandlerOptions) : Rpc → Prop where
  | constructed (data : Bytes) (compressed : Option Bytes) :
      Starts options ((fresh options).writeMessage options data compressed)
  | turnedDown (status : QGrpcStatus) (h : status.code ≠ .ok) :
      Starts options { fresh options with
        alive := false, pending := [.contextFinished status] }

end Rpc

/-- Library answers for the two numbers an accepted response needs. -/
def plainEnvironment : Environment where
  toInt v := if v = ascii "200" then some 200 else none
  toShort v := if v = ascii "0" then some 0 else none
  fromUtf8 _ := ""
  setEncoding _ := false

/-- A bidirectional stream without compression or deadline. -/
def bidiOptions : HandlerOptions where
  rpcType := .bidiStreaming
  maxReceiveSize := 4096
  requestEncoding := .identity
  headers := { acceptedCompressionAlgorithms := [], filterServerMetadata := true }
  hasDeadline := false

/-- The handler of such a stream, started with an empty message. -/
def startedBidi : Rpc := (Rpc.fresh bidiOptions).writeMessage bidiOptions [] none

/-- The request is sent and the response headers are accepted. -/
def answered : List Input :=
  [.attachStream, .sendInitialRequest true, .sendDATAAccepted, .uploadFinished, .sendDATAReturned,
    .resume [], .resume [],
    .headersReceived [(ascii ":status", ascii "200"), (ascii "content-type", ascii "application/grpc")]
      false,
    .slotReturned]

/-- Two more messages are written, the second while the first is uploaded, and the request is
closed. One message is received, and trailers end the RPC. -/
def conversation : List Input :=
  answered ++ [.writeMessage [7] none, .sendDATAAccepted, .sendDATAReturned, .resume [],
    .writeMessage [8, 9] none, .writesDone, .uploadFinished, .sendDATAAccepted, .uploadFinished,
    .sendDATAReturned, .resume [], .sendDATAAccepted, .sendDATAReturned, .resume [],
    .uploadFinished, .callback .messageWritten, .slotReturned,
    .dataReceived [0, 0, 0, 0, 1, 42] false, .resume [], .slotReturned, .resume [],
    .headersReceived [(ascii "grpc-status", ascii "0")] true, .slotReturned, .resume []]

end QtGrpc.Http2
