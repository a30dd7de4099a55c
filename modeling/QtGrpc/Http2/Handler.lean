import QtGrpc.Http2.Frame
import QtGrpc.Http2.Headers

/-!
# One RPC on the HTTP/2 channel

`Http2Handler` moves one RPC between the operation the user holds and the HTTP/2 stream that
carries it. Its members, the state of the operation, the callbacks in flight and the code that
is still to run form one configuration. Signals with user code behind them and calls into the
stream are suspension points: what runs after them is kept on a stack of continuations, so that
user calls and stream events can re-enter the handler exactly where the sources allow it.
-/

namespace QtGrpc.Http2

/-- The four kinds of RPC. -/
inductive RpcType where
  | unaryCall | serverStreaming | clientStreaming | bidiStreaming
deriving DecidableEq, Repr

/-- Calls and server streams close the request with their only message. -/
def RpcType.endStreamAtFirstData : RpcType → Bool
  | .unaryCall | .serverStreaming => true
  | .clientStreaming | .bidiStreaming => false

/-- The operations that forward `messageReceived` to the user. -/
def RpcType.signalsMessageReceived : RpcType → Bool
  | .serverStreaming | .bidiStreaming => true
  | .unaryCall | .clientStreaming => false

/-- The state of the handler; the last two are its end points. -/
inductive State where
  | idle | requestHeadersSent | active | cancelled | finished
deriving DecidableEq, Repr

/-- `m_state >= State::Cancelled`, which is also `m_state > State::Active`. -/
def State.ended : State → Bool
  | .cancelled | .finished => true
  | .idle | .requestHeadersSent | .active => false

/-- The states of an HTTP/2 stream. -/
inductive StreamState where
  | idle | reservedRemote | opened | halfClosedLocal | halfClosedRemote | closed
deriving DecidableEq, Repr

/-- What the handler observes of its `QHttp2Stream`; `errorConnected` is the single-shot
connection to `errorOccurred`. -/
structure Http2Stream where
  state : StreamState := .idle
  isUploadingDATA : Bool := false
  errorConnected : Bool := true
deriving DecidableEq, Repr

/-- The settings fixed when the handler is constructed. -/
structure HandlerOptions where
  rpcType : RpcType
  maxReceiveSize : UInt32
  requestEncoding : CompressionAlgorithm
  headers : HeaderOptions
  hasDeadline : Bool
deriving Repr

/-- Callbacks waiting for the event loop. -/
inductive Callback where
  | messageWritten
  | asyncFinish (status : QGrpcStatus)
  | contextFinished (status : QGrpcStatus)
deriving DecidableEq, Repr

/-- Code that resumes when the call above it on the stack returns. -/
inductive Continuation where
  | slot
  | finishReturn
  | dataReceived (endStream : Bool)
  | sendDATA
  | sendingDATA
  | processQueue (drainingQueue : Bool)
  | sendInitialRequest
  | cancelRequested
  | connectionDeleted
  | channelDestroyed
deriving DecidableEq, Repr

/-- What a run does towards the transport and the user, in order. -/
inductive Event where
  | writeMessage (message : Bytes)
  | writesDone
  | attachStream
  | sendHEADERS
  | sendDATA (payload : Bytes) (endStream : Bool)
  | uploadStarted
  | uploadEnded
  | sendRST_STREAM
  | headers (phase : HeaderPhase) (headers : HttpHeader)
  | finished (status : QGrpcStatus)
  | messageReceived (payload : Bytes)
  | messageWritten
  | serverInitialMetadataReceived (metadata : HttpHeader)
deriving DecidableEq, Repr

/-- One RPC: the operation, the members of its handler, the callbacks and the code in flight. -/
structure Rpc where
  operationFinished : Bool := false
  channelAlive : Bool := true
  alive : Bool := true
  context : Bool := true
  queue : List Bytes := []
  stream : Option Http2Stream := none
  grpcDataParser : GrpcDataParser
  negotiatedEncoding : Bytes := []
  decompressor : Bool := false
  state : State := .idle
  writesDoneSent : Bool := false
  drainingQueue : Bool := false
  inFlightUserWrite : Bool := false
  queuedBytes : UInt64 := 0
  bytesToWrite : UInt64 := 0
  deadlineTimer : Bool := false
  deleteLater : Bool := false
  pending : List Callback := []
  stack : List Continuation := []
  trace : List Event := []
deriving Repr

/-- One read of the decompressor: bytes, or its error. -/
abbrev ReadResult := Except String Bytes

namespace Rpc

/-- Record what the handler does. -/
def emit (rpc : Rpc) (event : Event) : Rpc := { rpc with trace := rpc.trace ++ [event] }

/-- Run some code before the rest of the stack. -/
def push (rpc : Rpc) (code : List Continuation) : Rpc := { rpc with stack := code ++ rpc.stack }

/-- The operation's reaction to `QGrpcOperationContext::finished`: it forwards the first one
only. The continuation runs when the connected slots have returned. -/
def contextFinished (rpc : Rpc) (status : QGrpcStatus) (after : List Continuation) : Rpc :=
  if rpc.operationFinished then rpc.push after
  else (({ rpc with operationFinished := true }).emit (.finished status)).push (.slot :: after)

/-- Finish the RPC unless the handler is `Finished`; a cancelled handler stays so. -/
def finish (rpc : Rpc) (status : QGrpcStatus) : Rpc :=
  if ¬ rpc.context then { rpc with state := .cancelled, deleteLater := true }
  else if rpc.state = .finished then rpc
  else
    ({ rpc with
        state := if rpc.state = State.cancelled then State.cancelled else State.finished
        deadlineTimer := false }).contextFinished status [.finishReturn]

/-- Finish from the event loop. -/
def asyncFinish (rpc : Rpc) (status : QGrpcStatus) : Rpc :=
  if ¬ rpc.context then { rpc with state := .cancelled, deleteLater := true }
  else { rpc with pending := rpc.pending ++ [.asyncFinish status] }

/-- End an unfinished RPC from the client side. -/
def cancelWithStatus (rpc : Rpc) (status : QGrpcStatus) : Rpc :=
  if rpc.state.ended then rpc
  else
    let cancelled := { rpc with state := .cancelled }
    let reset := match rpc.stream with
      | some stream => if stream.state = StreamState.idle then cancelled else cancelled.emit .sendRST_STREAM
      | none => cancelled
    reset.finish status

/-- A stream that no longer takes DATA; without a stream messages are collected. -/
def isStreamClosedForSending (rpc : Rpc) : Bool :=
  match rpc.stream with
  | some stream => stream.state = .halfClosedLocal ∨ stream.state = .closed
  | none => false

/-- One round of the drain: dequeue a message and hand it to the stream. -/
def sendNext (endStreamAtFirstData : Bool) (rpc : Rpc) : Rpc :=
  match rpc.queue with
  | [] => rpc
  | nextMessage :: queue =>
    let closeStream := nextMessage.isEmpty || endStreamAtFirstData
    (({ rpc with
        queue := queue
        queuedBytes := rpc.queuedBytes - UInt64.ofNat nextMessage.length
        inFlightUserWrite := !closeStream }).emit (.sendDATA nextMessage closeStream)).push
      [.sendDATA]

/-- Start draining the queue unless the stream is missing, unopened or busy. -/
def processQueue (endStreamAtFirstData : Bool) (rpc : Rpc) : Rpc :=
  match rpc.stream with
  | none => rpc
  | some stream =>
    if rpc.state = .idle then rpc
    else if stream.isUploadingDATA then rpc
    else if rpc.queue.isEmpty then rpc
    else
      ({ rpc with drainingQueue := true }.push [.processQueue rpc.drainingQueue]).sendNext
        endStreamAtFirstData

/-- The largest payload the length prefix can announce. -/
def GrpcMaxPayloadSize : Nat := 2 ^ 32 - 1

/-- Below this size compression is not attempted. -/
def CompressionMinPayloadBytes : Nat := 30

/-- Frame a serialized message; `compressed` is what the compressor makes of it, if it helps. -/
def frameOutgoing (requestEncoding : CompressionAlgorithm) (data : Bytes)
    (compressed : Option Bytes) : Bytes :=
  if requestEncoding ≠ .identity ∧ CompressionMinPayloadBytes ≤ data.length then
    match compressed with
    | some payload => frameMessage GrpcCompressedFlag payload
    | none => frameMessage 0 data
  else frameMessage 0 data

/-- Enqueue one message and start the drain. -/
def writeMessage (options : HandlerOptions) (rpc : Rpc) (data : Bytes)
    (compressed : Option Bytes) : Rpc :=
  if rpc.writesDoneSent ∨ rpc.state.ended ∨ rpc.isStreamClosedForSending then rpc
  else if GrpcMaxPayloadSize < data.length then
    rpc.finish ⟨.resourceExhausted, "Outgoing message size (" ++ toString data.length ++
      " bytes) exceeds configured limit (" ++ toString GrpcMaxPayloadSize ++ " bytes)"⟩
  else
    let msg := frameOutgoing options.requestEncoding data compressed
    (({ rpc with
        queuedBytes := rpc.queuedBytes + UInt64.ofNat msg.length
        bytesToWrite := rpc.bytesToWrite + UInt64.ofNat msg.length
        queue := rpc.queue ++ [msg] }).emit (.writeMessage msg)).processQueue
      options.rpcType.endStreamAtFirstData

/-- Enqueue the closing marker unless the stream is closed for sending already. -/
def writesDone (options : HandlerOptions) (rpc : Rpc) : Rpc :=
  if rpc.writesDoneSent ∨ rpc.state.ended then rpc
  else
    let sent := { rpc with writesDoneSent := true }
    if sent.isStreamClosedForSending then sent
    else (({ sent with queue := sent.queue ++ [[]] }).emit .writesDone).processQueue
      options.rpcType.endStreamAtFirstData

/-- Hand the request headers to the attached stream and start the drain. -/
def sendInitialRequest (options : HandlerOptions) (rpc : Rpc) (sendHEADERS : Bool) : Rpc :=
  if rpc.state.ended then rpc
  else if ¬ sendHEADERS then
    rpc.asyncFinish ⟨.unavailable, "Unable to send initial headers to an HTTP/2 stream"⟩
  else
    ((({ rpc with state := .requestHeadersSent }).emit .sendHEADERS).push
      [.sendInitialRequest]).processQueue options.rpcType.endStreamAtFirstData

/-- The phase of a header block, if one is expected in this state. -/
def headerPhase (state : State) (endStream : Bool) : Option HeaderPhase :=
  match state, endStream with
  | .requestHeadersSent, true => some .trailersOnly
  | .requestHeadersSent, false => some .initial
  | .active, true => some .trailers
  | _, _ => none

/-- The handler connected to `QHttp2Stream::headersReceived`. -/
def headersReceived (env : Environment) (options : HandlerOptions) (rpc : Rpc)
    (headers : HttpHeader) (endStream : Bool) : Rpc :=
  if rpc.state.ended then { rpc with deleteLater := true }
  else match headerPhase rpc.state endStream with
    | none => rpc
    | some phase =>
      let active := { rpc with state := .active }
      if ¬ rpc.context then { active with state := .cancelled, deleteLater := true }
      else
        let (outcome, scan) := handleHeaders env options.headers phase rpc.negotiatedEncoding
          rpc.decompressor headers
        let handled := ({ active with
          negotiatedEncoding := scan.negotiatedEncoding
          decompressor := scan.decompressor }).emit (.headers phase headers)
        match outcome with
        | .finish status => handled.finish status
        | .initialMetadata metadata =>
          (handled.emit (.serverInitialMetadataReceived metadata)).push [.slot]
        | .trailingMetadata _ status => handled.finish status

/-- Collect the reads of one compressed message under the receive limit. -/
def decompress (maxReceiveSize : UInt32) (finalPayload : Bytes) :
    List ReadResult → Except QGrpcStatus Bytes
  | [] => .ok finalPayload
  | .error errorString :: _ => .error ⟨.internal, "Decompression failed: " ++ errorString⟩
  | .ok buffer :: reads =>
    let newPayloadSize := finalPayload.length + buffer.length
    if maxReceiveSize.toNat < newPayloadSize then
      .error ⟨.resourceExhausted, "Decompressed message size (" ++ toString newPayloadSize ++
        " bytes) exceeded configured limit (" ++ toString maxReceiveSize.toNat ++ " bytes)"⟩
    else decompress maxReceiveSize (finalPayload ++ buffer) reads

/-- The payload a received frame delivers, or the status that ends the RPC. -/
def framePayload (rpc : Rpc) (frame : Frame) (reads : List ReadResult) :
    Except QGrpcStatus Bytes :=
  if frame.isCompressed then
    if ¬ rpc.decompressor ∨ rpc.negotiatedEncoding.isEmpty then
      .error ⟨.internal, "Protocol error: received compressed message " ++
        "but no encoding was negotiated."⟩
    else decompress rpc.grpcDataParser.maxReceiveSize [] reads
  else .ok frame.payload

/-- Pass a payload on to the operation, which signals it for server and bidirectional streams. -/
def messageReceived (options : HandlerOptions) (rpc : Rpc) (payload : Bytes) : Rpc :=
  if options.rpcType.signalsMessageReceived then
    (rpc.emit (.messageReceived payload)).push [.slot]
  else rpc

/-- One round of the loop in the handler of `QHttp2Stream::dataReceived`. -/
def receiveNext (options : HandlerOptions) (rpc : Rpc) (endStream : Bool)
    (reads : List ReadResult) : Rpc :=
  match rpc.grpcDataParser.parseNextFrame with
  | (.error .needMoreData, parser) =>
    let parsed := { rpc with grpcDataParser := parser }
    if ¬ endStream then parsed
    else if parser.bytesAvailable ≠ 0 then
      parsed.finish ⟨.dataLoss, "Unexpected end of stream with " ++
        toString parser.bytesAvailable ++ " bytes remaining"⟩
    else parsed.finish {}
  | (.error (.oversize declaredSize), parser) =>
    ({ rpc with grpcDataParser := parser }).finish
      ⟨.resourceExhausted, "Received message size (" ++ toString declaredSize ++
        " bytes) exceeds configured limit (" ++ toString parser.maxReceiveSize.toNat ++ " bytes)"⟩
  | (.ok frame, parser) =>
    let parsed := { rpc with grpcDataParser := parser }
    match rpc.framePayload frame reads with
    | .error status => parsed.finish status
    | .ok payload => (parsed.push [.dataReceived endStream]).messageReceived options payload

/-- The handler connected to `QHttp2Stream::dataReceived`, up to its loop. -/
def dataReceived (rpc : Rpc) (data : Bytes) (endStream : Bool) : Rpc :=
  if ¬ rpc.context then rpc
  else if rpc.state = .cancelled then rpc
  else ({ rpc with grpcDataParser := rpc.grpcDataParser.feed data }).push [.dataReceived endStream]

/-- Emit `messageWritten` from the event loop. -/
def scheduleMessageWritten (rpc : Rpc) : Rpc :=
  { rpc with pending := rpc.pending ++ [.messageWritten] }

/-- The handler connected to `QHttp2Stream::uploadFinished`. -/
def uploadFinished (options : HandlerOptions) (rpc : Rpc) : Rpc :=
  let scheduled :=
    if rpc.inFlightUserWrite then { rpc with inFlightUserWrite := false }.scheduleMessageWritten
    else rpc
  if scheduled.drainingQueue then scheduled
  else scheduled.processQueue options.rpcType.endStreamAtFirstData

/-- The stream disappears together with an upload it may have been carrying. -/
def dropStream (rpc : Rpc) : Rpc :=
  match rpc.stream with
  | some stream =>
    if stream.isUploadingDATA then ({ rpc with stream := none }).emit .uploadEnded
    else { rpc with stream := none }
  | none => rpc

/-- The handler object is destroyed and its stream with it. -/
def destroy (rpc : Rpc) : Rpc := ({ rpc with alive := false, deadlineTimer := false }).dropStream

/-- The status of a message that could not be serialized. -/
def serializationFailure (messageTooLarge : Bool) (lastErrorString : String) : QGrpcStatus :=
  ⟨if messageTooLarge then .resourceExhausted else .internal,
    "Failed to serialize the message: " ++ lastErrorString⟩

end Rpc

end QtGrpc.Http2
