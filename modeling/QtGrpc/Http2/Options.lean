import QtGrpc.Http2.Run

/-!
# Options of channels and calls

A channel holds options that can be replaced at any time. It negotiates its content type when it
is constructed; every RPC takes most of its settings when its handler is constructed, but reads
the deadline when its request is sent and the accepted encodings when a response arrives.
-/

namespace QtGrpc.Http2

/-- The serializers a format can share; one supplied by the user is known by its identity. -/
inductive Serializer where
  | protobuf | json | custom (id : Nat)
deriving DecidableEq, Repr

/-- `QGrpcSerializationFormat`; the pointer to the serializer can be null. -/
structure SerializationFormat where
  suffix : Bytes
  serializer : Option Serializer
deriving DecidableEq, Repr

namespace SerializationFormat

/-- The presets of `QtGrpc::SerializationFormat`. -/
def default : SerializationFormat := ⟨[], some .protobuf⟩

def protobuf : SerializationFormat := ⟨ascii "proto", some .protobuf⟩

def json : SerializationFormat := ⟨ascii "json", some .json⟩

end SerializationFormat

/-- The set of accepted algorithms besides `Identity`, which is always in it. -/
structure CompressionAlgorithms where
  deflate : Bool := false
  gzip : Bool := false
deriving DecidableEq, Repr

/-- The members of the set. -/
def CompressionAlgorithms.toList (flags : CompressionAlgorithms) : List CompressionAlgorithm :=
  .identity :: (if flags.deflate then [.deflate] else []) ++ if flags.gzip then [.gzip] else []

/-- The options an RPC reads from its channel; `metadata` is in the iteration order of its hash,
timeouts are in milliseconds. -/
structure ChannelOptions where
  serializationFormat : SerializationFormat := .default
  acceptedCompressionAlgorithms : CompressionAlgorithms := {}
  deadlineTimeout : Option Int := none
  metadata : HttpHeader := []
  filterServerMetadata : Option Bool := none
  maximumReceiveMessageSize : Option UInt64 := none
  requestCompression : Option CompressionAlgorithm := none
deriving DecidableEq, Repr

/-- The options of one call. -/
structure CallOptions where
  deadlineTimeout : Option Int := none
  metadata : HttpHeader := []
  filterServerMetadata : Option Bool := none
  maximumReceiveMessageSize : Option UInt64 := none
  requestCompression : Option CompressionAlgorithm := none
deriving DecidableEq, Repr

/-- The content type without a suffix. -/
def DefaultContentType : Bytes := ascii "application/grpc"

/-- The content type of a format. -/
def SerializationFormat.contentType (format : SerializationFormat) : Bytes :=
  if format.suffix.isEmpty then DefaultContentType
  else DefaultContentType ++ ascii "+" ++ format.suffix

/-- Settle the content type of a new channel: a format without a suffix gives way to what the
metadata say. The options afterwards are those of the channel. -/
def setupContentTypeNegotiation (channelOptions : ChannelOptions) : Bytes × ChannelOptions :=
  let formatSuffix := channelOptions.serializationFormat.suffix
  let negotiated : ChannelOptions :=
    match channelOptions.metadata.find? fun entry => entry.1 = ascii "content-type" with
    | none => channelOptions
    | some (_, value) =>
      if formatSuffix.isEmpty ∧ value ≠ DefaultContentType then
        { channelOptions with
          serializationFormat :=
            if value = ascii "application/grpc+json" then .json
            else if value = ascii "application/grpc+proto" ∨ value = DefaultContentType then
              .protobuf
            else .default }
      else channelOptions
  (if formatSuffix ≠ negotiated.serializationFormat.suffix then
      negotiated.serializationFormat.contentType
    else channelOptions.serializationFormat.contentType, negotiated)

/-- The names of the encodings a request can announce. -/
def requestEncodingName : CompressionAlgorithm → Bytes
  | .gzip => ascii "gzip"
  | _ => ascii "deflate"

/-- The value of `grpc-accept-encoding`. -/
def constructAcceptEncoding (flags : CompressionAlgorithms) : Bytes :=
  ascii "identity" ++ (if flags.deflate then ascii ",deflate" else []) ++
    if flags.gzip then ascii ",gzip" else []

/-- `clampToRange` with the floor zero. -/
def clampToCap (configured : UInt64) (cap : UInt32) : UInt32 :=
  if configured.toNat > cap.toNat then cap else configured.toUInt32

/-- Four mebibytes. -/
def DefaultMaximumReceiveMessageSize : UInt32 := 4 * 1024 * 1024

/-- The receive limit: that of the call, of the channel, of the environment, or the default. -/
def constructMaximumReceiveSize (envMaximumReceiveSize : Option UInt64)
    (channelOptions : ChannelOptions) (callOptions : CallOptions) : UInt32 :=
  match callOptions.maximumReceiveMessageSize, channelOptions.maximumReceiveMessageSize,
    envMaximumReceiveSize with
  | some callVal, _, _ => clampToCap callVal (UInt32.ofNat Rpc.GrpcMaxPayloadSize)
  | none, some chVal, _ => clampToCap chVal (UInt32.ofNat Rpc.GrpcMaxPayloadSize)
  | none, none, some envVal => clampToCap envVal (UInt32.ofNat Rpc.GrpcMaxPayloadSize)
  | none, none, none => DefaultMaximumReceiveMessageSize

/-- Whether protocol headers are kept out of the server metadata. -/
def constructFilterServerMetadata (channelOptions : ChannelOptions) (callOptions : CallOptions) :
    Bool :=
  callOptions.filterServerMetadata.getD (channelOptions.filterServerMetadata.getD true)

/-- The encoding of the request messages. -/
def constructRequestEncoding (channelOptions : ChannelOptions) (callOptions : CallOptions) :
    CompressionAlgorithm :=
  callOptions.requestCompression.getD (channelOptions.requestCompression.getD .identity)

/-- The deadline that `sendInitialRequest` starts the timer with. -/
def deadlineTimeout (channelOptions : ChannelOptions) (callOptions : CallOptions) : Option Int :=
  callOptions.deadlineTimeout <|> channelOptions.deadlineTimeout

/-- The user metadata that become request headers: reserved keys are dropped. -/
def iterateMetadata (metadata : HttpHeader) : HttpHeader :=
  metadata.filterMap fun (key, value) =>
    let lowerKey := key.toLower
    if (ascii ":").isPrefixOf lowerKey ∨ (ascii "grpc-").isPrefixOf lowerKey ∨
        (ascii "qtgrpc-").isPrefixOf lowerKey ∨ lowerKey = ascii "content-type" ∨
        lowerKey = ascii "te" ∨ lowerKey = ascii "user-agent" then none
    else some (lowerKey, value)

/-- What the channel derives from its URI and its host once and for all. -/
structure Endpoint where
  authorityHeader : Bytes
  schemeHeader : Bytes
  userAgent : Bytes
  envMaximumReceiveSize : Option UInt64 := none
deriving Repr

/-- What the user asks for when an RPC is started, with its serialized first message. -/
structure Operation where
  service : Bytes
  method : Bytes
  rpcType : RpcType
  callOptions : CallOptions
  data : Bytes
  compressed : Option Bytes
deriving Repr

/-- What an RPC took from the options of its channel after its handler was constructed. -/
inductive OptionUse where
  | deadline (timeout : Option Int)
  | encoding (v : Bytes) (accepted : Bool)
deriving DecidableEq, Repr

/-- One RPC with the settings its handler was constructed with; the serializer of `format` is
that of the operation, and `uses` records the options read later. -/
structure Handler where
  format : SerializationFormat
  rpcType : RpcType
  callOptions : CallOptions
  initialHeaders : HttpHeader := []
  maxReceiveSize : UInt32 := 0
  filterServerMetadata : Bool := true
  requestEncoding : CompressionAlgorithm := .identity
  uses : List OptionUse := []
  rpc : Rpc
deriving Repr

/-- The channel: its options, what its constructor fixed, the cached header and all RPCs. -/
structure Channel where
  channelOptions : ChannelOptions
  endpoint : Endpoint
  contentType : Bytes
  acceptEncoding : Option (Bytes × CompressionAlgorithms) := none
  rpcs : List Handler := []
deriving Repr

/-- What happens to a channel; an RPC is turned down if its message cannot be serialized or the
connected socket is not writable. -/
inductive ChannelInput where
  | setChannelOptions (channelOptions : ChannelOptions)
  | start (operation : Operation)
  | turnDown (operation : Operation) (status : QGrpcStatus)
  | rpc (index : Nat) (input : Input)

/-- The `grpc-encoding` entries of a block that are looked at, and whether they are accepted. -/
def HeaderScan.encodings (env : Environment) (options : HeaderOptions) (phase : HeaderPhase)
    (scan : HeaderScan) : HttpHeader → List OptionUse
  | [] => []
  | (k, v) :: headers =>
    let here : List OptionUse :=
      if phase = .initial ∧ k = ascii "grpc-encoding" then
        [.encoding v (isAcceptedEncoding v options.acceptedCompressionAlgorithms)]
      else []
    match scan.entry env options phase k v with
    | .error _ => here
    | .ok next => here ++ next.encodings env options phase headers

namespace Handler

/-- The settings the code reads while the channel has the given options. -/
def options (handler : Handler) (channelOptions : ChannelOptions) : HandlerOptions where
  rpcType := handler.rpcType
  maxReceiveSize := handler.maxReceiveSize
  requestEncoding := handler.requestEncoding
  headers :=
    { acceptedCompressionAlgorithms := channelOptions.acceptedCompressionAlgorithms.toList
      filterServerMetadata := handler.filterServerMetadata }
  hasDeadline := (deadlineTimeout channelOptions handler.callOptions).isSome

/-- The start of the scan over a header block. -/
def scan (handler : Handler) : HeaderScan :=
  { negotiatedEncoding := handler.rpc.negotiatedEncoding, decompressor := handler.rpc.decompressor }

/-- What the code reads from the channel options while it takes one input. -/
def optionUses (env : Environment) (handler : Handler) (channelOptions : ChannelOptions) :
    Input → List OptionUse
  | .resume _ =>
    if handler.rpc.stack.head? = some .sendInitialRequest then
      [.deadline (deadlineTimeout channelOptions handler.callOptions)]
    else []
  | .headersReceived headers endStream =>
    if handler.rpc.context ∧ Rpc.headerPhase handler.rpc.state endStream = some .initial then
      handler.scan.encodings env (handler.options channelOptions).headers .initial headers
    else []
  | _ => []

/-- One step of the RPC under the options its channel has now. -/
def step (env : Environment) (channelOptions : ChannelOptions) (handler : Handler)
    (input : Input) : Option Handler :=
  (Rpc.step env (handler.options channelOptions) handler.rpc input).map fun rpc =>
    { handler with
      rpc := rpc
      uses := handler.uses ++ handler.optionUses env channelOptions input }

end Handler

namespace Channel

/-- A new channel. -/
def construct (endpoint : Endpoint) (channelOptions : ChannelOptions) : Channel :=
  let (contentType, negotiated) := setupContentTypeNegotiation channelOptions
  { channelOptions := negotiated, endpoint := endpoint, contentType := contentType }

/-- The cached header value, rebuilt when the flags have changed. -/
def cachedAcceptEncoding (channel : Channel) : Bytes × CompressionAlgorithms :=
  let flags := channel.channelOptions.acceptedCompressionAlgorithms
  match channel.acceptEncoding with
  | some (value, cached) =>
    if flags = cached then (value, cached) else (constructAcceptEncoding flags, flags)
  | none => (constructAcceptEncoding flags, flags)

/-- The headers of the request. -/
def constructInitialHeaders (channel : Channel) (operation : Operation)
    (requestEncoding : CompressionAlgorithm) : HttpHeader :=
  [(ascii ":authority", channel.endpoint.authorityHeader),
    (ascii ":method", ascii "POST"),
    (ascii ":path", ascii "/" ++ operation.service ++ ascii "/" ++ operation.method),
    (ascii ":scheme", channel.endpoint.schemeHeader),
    (ascii "content-type", channel.contentType),
    (ascii "service-name", operation.service),
    (ascii "grpc-accept-encoding", channel.cachedAcceptEncoding.1),
    (ascii "user-agent", channel.endpoint.userAgent),
    (ascii "te", ascii "trailers")] ++
  (if requestEncoding = .identity then []
    else [(ascii "grpc-encoding", requestEncodingName requestEncoding)]) ++
  iterateMetadata channel.channelOptions.metadata ++
  iterateMetadata operation.callOptions.metadata

/-- An operation that finishes without a handler. -/
def turnedDown (channel : Channel) (operation : Operation) (status : QGrpcStatus) : Handler where
  format := channel.channelOptions.serializationFormat
  rpcType := operation.rpcType
  callOptions := operation.callOptions
  rpc :=
    { grpcDataParser := { maxReceiveSize := 0, container := [] }
      alive := false
      pending := [.contextFinished status] }

/-- The handler of an operation, with its first message queued. -/
def startedHandler (channel : Channel) (operation : Operation) : Handler :=
  let channelOptions := channel.channelOptions
  let requestEncoding := constructRequestEncoding channelOptions operation.callOptions
  let handler : Handler :=
    { format := channelOptions.serializationFormat
      rpcType := operation.rpcType
      callOptions := operation.callOptions
      initialHeaders := channel.constructInitialHeaders operation requestEncoding
      maxReceiveSize := constructMaximumReceiveSize channel.endpoint.envMaximumReceiveSize
        channelOptions operation.callOptions
      filterServerMetadata := constructFilterServerMetadata channelOptions operation.callOptions
      requestEncoding := requestEncoding
      rpc := { grpcDataParser := { maxReceiveSize := 0, container := [] } } }
  { handler with
    rpc := (Rpc.fresh (handler.options channelOptions)).writeMessage
      (handler.options channelOptions) operation.data operation.compressed }

/-- Start an RPC; without a serializer it is turned down. -/
def start (channel : Channel) (operation : Operation) : Channel :=
  match channel.channelOptions.serializationFormat.serializer with
  | none =>
    { channel with
      rpcs := channel.rpcs ++
        [channel.turnedDown operation ⟨.aborted, "Serializer is not available"⟩] }
  | some _ =>
    { channel with
      rpcs := channel.rpcs ++ [channel.startedHandler operation]
      acceptEncoding := some channel.cachedAcceptEncoding }

/-- Take one input. -/
def step (env : Environment) (channel : Channel) : ChannelInput → Option Channel
  | .setChannelOptions channelOptions => some { channel with channelOptions := channelOptions }
  | .start operation => some (channel.start operation)
  | .turnDown operation status =>
    if status.code = .ok then none
    else some { channel with rpcs := channel.rpcs ++ [channel.turnedDown operation status] }
  | .rpc index input =>
    match channel.rpcs[index]? with
    | none => none
    | some handler =>
      (handler.step env channel.channelOptions input).map fun next =>
        { channel with rpcs := channel.rpcs.set index next }

end Channel

end QtGrpc.Http2
