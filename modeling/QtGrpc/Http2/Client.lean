import QtGrpc.Http2.Connection
import QtGrpc.Library.FlatSet

/-!
# A client and its channels

A client starts its operations on the channel attached to it and keeps them in a set from the end
of the start call until they finish or are destroyed. Attaching another channel cancels them in a
loop over that set. User code runs at the event loop and in slots. While a start call is in
flight nothing else goes on, and during the loop only the code that the loop calls. Operations
that are invalid from the outset reach neither a channel nor the set.
-/

namespace QtGrpc.Http2

/-- An operation: the channel it was started on, and its place there. -/
structure OperationId where
  channel : Nat
  index : Nat
deriving DecidableEq, Inhabited, Repr

/-- The loop in `attachChannel`: the channel to attach, the position of the loop and its end, the
operations that were active when it began, and the code in flight below it. -/
structure CancelLoop where
  channel : Nat
  position : Nat
  last : Nat
  operations : List OperationId
  floor : OperationId → Nat

/-- `QGrpcClientBase`, with every channel it has had. Loops are nested, the innermost first. -/
structure Client (set : FlatSet OperationId) where
  channels : List Http2Channel := []
  channel : Option Nat := none
  activeStreams : set.Storage
  starting : Option OperationId := none
  loops : List CancelLoop := []

/-- What can happen to the client. -/
inductive ClientEvent where
  | construct (connectTimeoutEnabled : Bool)
  | attachChannel (channel : Nat)
  | cancelNext
  | channelAttached
  | start (request : StartRequest)
  | startReturned
  | channel (index : Nat) (event : ChannelEvent)

/-- The inputs that continue a start call: the stream takes the headers and the message, and
reports failures through return values. -/
def Input.startsOn : Input → Bool
  | .slotReturned | .resume _ | .sendDATAAccepted | .sendDATARefused | .sendDATAReturned
  | .streamStateChanged _ | .uploadFinished | .bytesWritten _ => true
  | _ => false

/-- The operation emits `finished` or `destroyed`, to which the client is connected. -/
def Rpc.leaves (before after : Rpc) : Bool :=
  !before.operationFinished && after.operationFinished || before.context && !after.context

/-- The operation with this index leaves the set. -/
def Http2Channel.leaves (before after : Http2Channel) (index : Nat) : Bool :=
  match before.handlers[index]?, after.handlers[index]? with
  | some earlier, some later => earlier.rpc.leaves later.rpc
  | _, _ => false

namespace Client

variable {set : FlatSet OperationId}

/-- A new client has no channel. -/
def construct (set : FlatSet OperationId) : Client set := { activeStreams := set.empty }

/-- The state of an operation. -/
def rpc? (client : Client set) (op : OperationId) : Option Rpc :=
  client.channels[op.channel]?.bind fun channel => channel.handlers[op.index]?.map ChannelHandler.rpc

/-- Every operation there has been. -/
def operations (client : Client set) : List OperationId :=
  client.channels.zipIdx.flatMap fun (channel, i) => channel.indices.map (OperationId.mk i)

/-- How much code of an operation is in flight. -/
def depth (client : Client set) (op : OperationId) : Nat :=
  (client.rpc? op).elim 0 fun rpc => rpc.stack.length

/-- The code in flight below the innermost loop. -/
def floor (client : Client set) : OperationId → Nat :=
  client.loops.head?.elim (fun _ => 0) CancelLoop.floor

/-- User code runs in a slot that was called from the innermost loop. -/
def slotRuns (client : Client set) : Bool :=
  client.operations.any fun op => client.floor op < client.depth op &&
    (client.rpc? op).any fun rpc => rpc.stack.head? == some .slot

/-- User code runs: in such a slot, or at the event loop. -/
def userRuns (client : Client set) : Bool :=
  client.starting.isNone &&
    (client.slotRuns || client.loops.isEmpty && client.channels.all Http2Channel.quiescent)

/-- The code called from the innermost loop has returned. -/
def returned (client : Client set) : Bool :=
  client.starting.isNone && client.operations.all fun op => client.depth op ≤ client.floor op

/-- A channel changes, and the operations that leave the set are removed. -/
def withChannel (client : Client set) (i : Nat) (before after : Http2Channel) : Client set :=
  { client with
    channels := client.channels.set i after
    activeStreams := set.removeAll (fun op => op.channel = i && before.leaves after op.index)
      client.activeStreams }

/-- `QGrpcOperation::cancel`. -/
def cancel (client : Client set) (op : OperationId) : Option (Client set) :=
  match client.channels[op.channel]? with
  | none => none
  | some channel =>
    match channel.handlers[op.index]? with
    | none => none
    | some handler =>
      -- the pointer to a destroyed operation dangles
      if ¬ handler.rpc.context then none
      else
        some (client.withChannel op.channel channel { channel with
          handlers := channel.handlers.set op.index { handler with rpc := handler.rpc.cancel } })

/-- `attachChannel` up to its loop. -/
def attachChannel (client : Client set) (channel : Nat) : Client set :=
  if client.channel = some channel then client
  else
    let loop : CancelLoop :=
      { channel := channel
        position := set.first client.activeStreams
        last := set.last client.activeStreams
        operations := set.elements client.activeStreams
        floor := client.depth }
    { client with loops := loop :: client.loops }

/-- The start call up to its return: the operation is processed by the channel. -/
def initOperation (client : Client set) (request : StartRequest) : Option (Client set) :=
  match client.channel with
  | none => none
  | some i =>
    client.channels[i]?.map fun channel =>
      { client.withChannel i channel (channel.processOperation request) with
        starting := some ⟨i, channel.handlers.length⟩ }

/-- Whether something can happen on a channel now. -/
def mayTake (client : Client set) (i : Nat) : ChannelEvent → Bool
  | .start _ => false
  | .rpc j input =>
    match client.starting with
    | some op => op = ⟨i, j⟩ && input.startsOn
    | none =>
      if client.loops.isEmpty then true
      else if input.fromUser then client.userRuns
      else client.floor ⟨i, j⟩ < client.depth ⟨i, j⟩
  | _ => client.starting.isNone && client.loops.isEmpty

/-- Take one event, if it is possible now. -/
def step (env : Environment) (client : Client set) : ClientEvent → Option (Client set)
  | .construct connectTimeoutEnabled =>
    if client.userRuns then
      some { client with channels := client.channels ++ [.construct connectTimeoutEnabled] }
    else none
  | .attachChannel channel =>
    if client.userRuns ∧ channel < client.channels.length then some (client.attachChannel channel)
    else none
  | .cancelNext =>
    match client.loops with
    | [] => none
    | loop :: loops =>
      if client.returned ∧ loop.position ≠ loop.last then
        (set.read client.activeStreams loop.position).bind fun op =>
          (client.cancel op).map fun next =>
            { next with loops := { loop with position := loop.position + 1 } :: loops }
      else none
  | .channelAttached =>
    match client.loops with
    | [] => none
    | loop :: loops =>
      if client.returned ∧ loop.position = loop.last then
        some { client with channel := some loop.channel, loops := loops }
      else none
  | .start request => if client.userRuns then client.initOperation request else none
  | .startReturned =>
    match client.starting with
    | none => none
    | some op =>
      if client.depth op = 0 then
        some { client with
          activeStreams := set.insert op client.activeStreams
          starting := none }
      else none
  | .channel i event =>
    match client.channels[i]? with
    | none => none
    | some channel =>
      if client.mayTake i event then
        (channel.step env event).map fun next => client.withChannel i channel next
      else none

end Client

end QtGrpc.Http2
