import QtGrpc.Http2.Run

/-!
# The connection of a channel

A channel has one socket, at most one HTTP/2 connection on it, and the handlers of its RPCs. The
socket connects, delivers SETTINGS, fails, and is connected again by a timer that a later RPC
starts. Two loops visit the handlers one by one and run user code in between: the one that sends
the requests once SETTINGS have arrived, and the one that finishes every RPC behind a socket
error. Socket events and timers are taken from the event loop; frames of different RPCs in flight
are not ordered among one another, so user code has at least the freedom it has in the sources.
-/

namespace QtGrpc.Http2

/-- `QGrpcHttp2ChannelPrivate::ConnectionState`. -/
inductive ConnectionState where
  | connecting | connected | settingsReceived | error
deriving DecidableEq, Repr

/-- The socket below the connection; an error leaves it unconnected. -/
inductive SocketState where
  | unconnected | connecting | connected
deriving DecidableEq, Repr

/-- A handler of the channel: its RPC, the headers it has yet to send, and the connection that
its stream belongs to. -/
structure ChannelHandler where
  options : HandlerOptions
  rpc : Rpc
  initialHeaders : HttpHeader
  carrier : Option Nat := none
deriving Repr

/-- A loop over the handlers with the indices still to visit and the expired ones met so far; that
of a socket error also knows how many handlers there were when it began. -/
inductive HandlerLoop where
  | socketError (errorCode : String) (existing : Nat) (remaining expired : List Nat)
  | settings (remaining expired : List Nat)
deriving DecidableEq, Repr

/-- The members of the channel that concern its connection; connections are numbered. -/
structure Http2Channel where
  handlers : List ChannelHandler := []
  state : ConnectionState := .connecting
  connection : Option Nat := none
  connections : Nat := 0
  socket : SocketState := .unconnected
  reconnectTimer : Bool := false
  connectTimeoutEnabled : Bool := true
  connectTimeoutTimer : Bool := false
  loop : Option HandlerLoop := none
deriving Repr

/-- What the channel is asked to start, with the answers of the socket and the stream: whether the
socket is writable, why no stream can be created, and whether the stream takes the headers. -/
structure StartRequest where
  options : HandlerOptions
  initialHeaders : HttpHeader
  initialHeaders_ne_nil : initialHeaders ≠ []
  data : Bytes
  compressed : Option Bytes
  writable : Bool := true
  errorString : String := ""
  streamError : Option String := none
  sendHEADERS : Bool := true

/-- What can happen to the channel. -/
inductive ChannelEvent where
  | connected (streamError : Nat → Option String)
  | settingsFrameReceived
  | socketError (errorCode : String)
  | connectTimeout
  | reconnectTimeout
  | start (request : StartRequest)
  | visit (sendHEADERS : Bool)
  | rpc (index : Nat) (input : Input)

/-- The inputs of an RPC that are not calls of its channel. -/
def Input.own : Input → Bool
  | .attachStream | .createStreamFailed _ | .sendInitialRequest _ | .socketError _
  | .connectionDeleted | .channelDestroyed => false
  | _ => true

/-- The calls of the user. -/
def Input.fromUser : Input → Bool
  | .writeMessage _ _ | .writeUnserializable _ _ | .writesDone | .cancel | .contextDestroyed => true
  | _ => false

/-- The inputs that continue code in flight. -/
def Input.continues : Input → Bool
  | .slotReturned | .resume _ | .sendDATAAccepted | .sendDATARefused | .sendDATAReturned
  | .streamStateChanged _ => true
  | _ => false

namespace ChannelHandler

/-- `Http2Handler::attachStream`. -/
def attachStream (handler : ChannelHandler) (connection : Nat) : ChannelHandler :=
  { handler with
    rpc := ({ handler.rpc with stream := some {} }).emit .attachStream
    carrier := some connection }

/-- `QGrpcHttp2ChannelPrivate::createHttp2Stream` with the answer of the connection. -/
def createHttp2Stream (handler : ChannelHandler) (connection : Nat) (streamError : Option String) :
    ChannelHandler :=
  match streamError with
  | none => handler.attachStream connection
  | some error =>
    { handler with
      rpc := handler.rpc.asyncFinish
        ⟨.unavailable, "Unable to create an HTTP/2 stream (" ++ error ++ ")"⟩ }

/-- `Http2Handler::sendInitialRequest`, which clears the headers it has sent. -/
def sendInitialRequest (handler : ChannelHandler) (sendHEADERS : Bool) : ChannelHandler :=
  if handler.rpc.state.ended then handler
  else
    { handler with
      rpc := handler.rpc.sendInitialRequest handler.options sendHEADERS
      initialHeaders := if sendHEADERS then [] else handler.initialHeaders }

/-- The connection is deleted and takes its streams with it. -/
def dropStream (handler : ChannelHandler) : ChannelHandler :=
  { handler with rpc := handler.rpc.dropStream, carrier := none }

end ChannelHandler

namespace Http2Channel

/-- No code of any RPC is in flight. -/
def stacksEmpty (channel : Http2Channel) : Bool :=
  channel.handlers.all fun handler => handler.rpc.stack.isEmpty

/-- Every event has been processed. -/
def quiescent (channel : Http2Channel) : Bool := channel.loop.isNone && channel.stacksEmpty

/-- User code runs: at the event loop, or in a slot. -/
def userRuns (channel : Http2Channel) : Bool :=
  channel.quiescent || channel.handlers.any fun handler => handler.rpc.stack.head? == some .slot

/-- The socket is connecting, or a timer is going to make it. -/
def attemptPending (channel : Http2Channel) : Bool :=
  channel.socket = .connecting || channel.reconnectTimer

/-- `attemptConnect`; a socket that is connecting or connected ignores the call. -/
def attemptConnect (channel : Http2Channel) : Http2Channel :=
  { channel with
    connectTimeoutTimer := channel.connectTimeoutTimer || channel.connectTimeoutEnabled
    socket := if channel.socket = .unconnected then .connecting else channel.socket }

/-- A new channel attempts to connect. -/
def construct (connectTimeoutEnabled : Bool) : Http2Channel :=
  ({ connectTimeoutEnabled := connectTimeoutEnabled } : Http2Channel).attemptConnect

/-- The indices a loop over the handlers is going to visit. -/
def indices (channel : Http2Channel) : List Nat := List.range channel.handlers.length

/-- Delete the handlers that a loop found expired. -/
def deleteExpired (channel : Http2Channel) (expired : List Nat) : List ChannelHandler :=
  channel.handlers.mapIdx fun i handler =>
    if i ∈ expired then { handler with rpc := handler.rpc.destroy } else handler

/-- `createHttp2Connection`: a new connection gets a stream for every handler. -/
def createHttp2Connection (channel : Http2Channel) (streamError : Nat → Option String) :
    Http2Channel :=
  { channel with
    state := .connected
    connection := some channel.connections
    connections := channel.connections + 1
    handlers := channel.handlers.mapIdx fun i handler =>
      if ¬ handler.rpc.alive then handler
      else if ¬ handler.rpc.context then { handler with rpc := handler.rpc.destroy }
      else handler.createHttp2Stream channel.connections (streamError i) }

/-- Begin to finish every RPC. -/
def handleSocketError (channel : Http2Channel) (errorCode : String) : Http2Channel :=
  { channel with
    socket := .unconnected
    loop := some (.socketError errorCode channel.handlers.length channel.indices []) }

/-- The end of `handleSocketError`: the connection is dropped. -/
def connectionLost (channel : Http2Channel) (expired : List Nat) : Http2Channel :=
  { channel with
    handlers := (channel.deleteExpired expired).map ChannelHandler.dropStream
    connectTimeoutTimer := false
    connection := none
    state := .error
    loop := none }

/-- `processOperation`. -/
def processOperation (channel : Http2Channel) (request : StartRequest) : Http2Channel :=
  if ¬ request.writable ∧ channel.state = .connected then
    { channel with
      handlers := channel.handlers ++
        [{ options := request.options
           initialHeaders := []
           rpc := { Rpc.fresh request.options with
             alive := false, pending := [.contextFinished ⟨.unavailable, request.errorString⟩] } }] }
  else
    let handler : ChannelHandler :=
      { options := request.options
        initialHeaders := request.initialHeaders
        rpc := (Rpc.fresh request.options).writeMessage request.options request.data
          request.compressed }
    match channel.connection, request.streamError with
    | some connection, some error =>
      { channel with
        handlers := channel.handlers ++ [handler.createHttp2Stream connection (some error)] }
    | connection, _ =>
      let attached := match connection with
        | some connection => handler.attachStream connection
        | none => handler
      let sent := if channel.state = .settingsReceived then
          attached.sendInitialRequest request.sendHEADERS
        else attached
      let added := { channel with handlers := channel.handlers ++ [sent] }
      if channel.state = .error then { added with reconnectTimer := true, state := .connecting }
      else added

/-- The next round of the loop in progress, once the code of the round before has returned. -/
def visit (channel : Http2Channel) (sendHEADERS : Bool) : Option Http2Channel :=
  match channel.loop with
  | none => none
  | some (.socketError errorCode existing (i :: remaining) expired) =>
    channel.handlers[i]?.map fun handler =>
      if ¬ handler.rpc.alive then
        { channel with loop := some (.socketError errorCode existing remaining expired) }
      else if ¬ handler.rpc.context then
        { channel with loop := some (.socketError errorCode existing remaining (expired ++ [i])) }
      else
        { channel with
          loop := some (.socketError errorCode existing remaining expired)
          handlers := channel.handlers.set i
            { handler with
              rpc := handler.rpc.finish
                ⟨.unavailable, "Network error occurred: " ++ errorCode⟩ } }
  | some (.socketError _ _ [] expired) => some (channel.connectionLost expired)
  | some (.settings (i :: remaining) expired) =>
    match channel.handlers[i]? with
    | none => none
    | some handler =>
      if ¬ handler.rpc.alive then some { channel with loop := some (.settings remaining expired) }
      else if ¬ handler.rpc.context then
        some { channel with loop := some (.settings remaining (expired ++ [i])) }
      -- without a stream the assertion of `sendInitialRequest` stops the program
      else if ¬ handler.rpc.state.ended ∧ handler.rpc.stream.isNone then none
      else
        some { channel with
          loop := some (.settings remaining expired)
          handlers := channel.handlers.set i (handler.sendInitialRequest sendHEADERS) }
  | some (.settings [] expired) =>
    some { channel with handlers := channel.deleteExpired expired, loop := none }

/-- Whether an RPC can take an input of its own now. -/
def mayTake (channel : Http2Channel) (handler : ChannelHandler) (input : Input) : Bool :=
  input.own &&
    if input.fromUser then channel.userRuns
    else input.continues || channel.quiescent || !handler.rpc.stack.isEmpty

/-- Take one event, if it is possible now. -/
def step (env : Environment) (channel : Http2Channel) : ChannelEvent → Option Http2Channel
  | .connected streamError =>
    if channel.quiescent ∧ channel.socket = .connecting then
      some (({ channel with socket := .connected }).createHttp2Connection streamError)
    else none
  | .settingsFrameReceived =>
    if channel.quiescent ∧ channel.connection.isSome then
      if channel.state = .settingsReceived then some channel
      else
        some { channel with
          connectTimeoutTimer := false
          state := .settingsReceived
          loop := some (.settings channel.indices []) }
    else none
  | .socketError errorCode =>
    if channel.quiescent then some (channel.handleSocketError errorCode) else none
  | .connectTimeout =>
    if channel.quiescent ∧ channel.connectTimeoutTimer then
      some (({ channel with connectTimeoutTimer := false }).handleSocketError "ConnectTimeout")
    else none
  | .reconnectTimeout =>
    if channel.quiescent ∧ channel.reconnectTimer then
      some ({ channel with reconnectTimer := false }).attemptConnect
    else none
  | .start request => if channel.userRuns then some (channel.processOperation request) else none
  | .visit sendHEADERS => if channel.stacksEmpty then channel.visit sendHEADERS else none
  | .rpc index input =>
    match channel.handlers[index]? with
    | none => none
    | some handler =>
      if channel.mayTake handler input then
        (Rpc.step env handler.options handler.rpc input).map fun rpc =>
          { channel with handlers := channel.handlers.set index { handler with rpc := rpc } }
      else none

end Http2Channel

end QtGrpc.Http2
