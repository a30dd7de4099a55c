import QtGrpc.Http2.Client
import QtGrpc.Http2.ConnectionLoss

/-!
# No operation finishes inside its start call

The failures of a start are deferred to the event loop, where the caller has connected to the
operation and the client has put it into its set. One is not: the constructor of the handler
finishes the RPC itself if the initial message is too long for the length prefix. The signal is
lost then, and the operation enters the set when it has finished.
-/

namespace QtGrpc.Http2

namespace Rpc

/-- Code that hands the request to the stream. -/
def Sends (code : Continuation) : Prop :=
  code = .sendDATA ∨ code = .sendingDATA ∨ code = .sendInitialRequest ∨
    ∃ draining, code = .processQueue draining

/-- The operation has not finished, and all code in flight hands its request to the stream. -/
structure Sending (rpc : Rpc) : Prop where
  unfinished : rpc.operationFinished = false
  sends : ∀ code ∈ rpc.stack, Sends code

/-- The property reads the stack and whether the operation has finished only. -/
theorem Sending.of_eq {rpc next : Rpc} (h : Sending rpc)
    (hfinished : next.operationFinished = rpc.operationFinished)
    (hstack : ∀ code ∈ next.stack, code ∈ rpc.stack ∨ Sends code) : Sending next where
  unfinished := hfinished.trans h.unfinished
  sends code hcode := (hstack code hcode).elim (h.sends code) id

/-- Sending the next message keeps to sending. -/
theorem sendNext_sending {rpc : Rpc} (h : Sending rpc) (endStreamAtFirstData : Bool) :
    Sending (rpc.sendNext endStreamAtFirstData) := by
  unfold sendNext
  split
  · exact h
  · refine h.of_eq rfl fun code hcode => ?_
    simp only [push, emit, List.cons_append, List.nil_append, List.mem_cons] at hcode
    exact hcode.elim (fun hcode => .inr (.inl hcode)) .inl

/-- Processing the queue keeps to sending. -/
theorem processQueue_sending {rpc : Rpc} (h : Sending rpc) (endStreamAtFirstData : Bool) :
    Sending (rpc.processQueue endStreamAtFirstData) := by
  unfold processQueue
  split
  · exact h
  · split
    · exact h
    · split
      · exact h
      · split
        · exact h
        · refine sendNext_sending ?_ _
          refine h.of_eq rfl fun code hcode => ?_
          simp only [push, List.cons_append, List.nil_append, List.mem_cons] at hcode
          exact hcode.elim (fun hcode => .inr (.inr (.inr (.inr ⟨_, hcode⟩)))) .inl

/-- Queueing the end of the operation keeps to sending. -/
theorem asyncFinish_sending {rpc : Rpc} (h : Sending rpc) (status : QGrpcStatus) :
    Sending (rpc.asyncFinish status) := by
  unfold asyncFinish
  split <;> exact h.of_eq rfl fun _ => .inl

/-- Sending the request keeps to sending. -/
theorem sendInitialRequest_sending {rpc : Rpc} (h : Sending rpc) (options : HandlerOptions)
    (sendHEADERS : Bool) : Sending (rpc.sendInitialRequest options sendHEADERS) := by
  unfold sendInitialRequest
  split
  · exact h
  · split
    · exact asyncFinish_sending h _
    · refine processQueue_sending ?_ _
      refine h.of_eq rfl fun code hcode => ?_
      simp only [push, emit, List.cons_append, List.nil_append, List.mem_cons] at hcode
      exact hcode.elim (fun hcode => .inr (.inr (.inr (.inl hcode)))) .inl

/-- The end of an upload keeps to sending. -/
theorem uploadFinished_sending {rpc : Rpc} (h : Sending rpc) (options : HandlerOptions) :
    Sending (rpc.uploadFinished options) := by
  unfold uploadFinished
  extract_lets scheduled
  have hscheduled : Sending scheduled := by
    unfold scheduled
    split
    · exact h.of_eq rfl fun _ => .inl
    · exact h
  split
  · exact hscheduled
  · exact processQueue_sending hscheduled _

/-- A message of a length that can be announced is queued. -/
theorem writeMessage_sending {rpc : Rpc} (h : Sending rpc) (options : HandlerOptions)
    {data : Bytes} (compressed : Option Bytes) (hdata : data.length ≤ GrpcMaxPayloadSize) :
    Sending (rpc.writeMessage options data compressed) := by
  unfold writeMessage
  split
  · exact h
  · rw [if_neg (by omega)]
    refine processQueue_sending ?_ _
    exact h.of_eq rfl fun _ => .inl

/-- Code that hands over the request leaves the stack. -/
theorem Sending.pop {rpc : Rpc} (h : Sending rpc) {code : Continuation} {rest : List Continuation}
    (hstack : rpc.stack = code :: rest) : Sending { rpc with stack := rest } :=
  h.of_eq rfl fun _ hmem => .inl (by rw [hstack]; exact List.mem_cons_of_mem _ hmem)

/-- Every step of what is on the stack keeps to sending. -/
theorem resume_sending {rpc next : Rpc} (h : Sending rpc) (options : HandlerOptions)
    (reads : List ReadResult) (hstep : rpc.resume options reads = some next) : Sending next := by
  unfold resume at hstep
  have hhead {code : Continuation} {rest : List Continuation} (hstack : rpc.stack = code :: rest) :
      Sends code := h.sends code (by rw [hstack]; exact List.mem_cons_self)
  split at hstep
  · rename_i rest hstack
    have := hhead hstack
    simp [Sends] at this
  · rename_i endStream rest hstack
    have := hhead hstack
    simp [Sends] at this
  · rename_i draining rest hstack
    split at hstep
    · cases hstep
    · split at hstep <;> cases hstep
      · exact sendNext_sending h _
      · exact (h.pop hstack).of_eq rfl fun _ => .inl
  · rename_i rest hstack
    cases hstep
    exact (h.pop hstack).of_eq rfl fun _ => .inl
  · rename_i rest hstack
    have := hhead hstack
    simp [Sends] at this
  · rename_i rest hstack
    have := hhead hstack
    simp [Sends] at this
  · rename_i rest hstack
    have := hhead hstack
    simp [Sends] at this
  · cases hstep

/-- A start call that goes on does not finish its operation. -/
theorem step_sending {env : Environment} {options : HandlerOptions} {rpc next : Rpc}
    {input : Input} (h : Sending rpc) (hinput : input.startsOn = true)
    (hstep : step env options rpc input = some next) : Sending next := by
  cases input <;> try cases hinput
  all_goals simp only [step] at hstep
  case slotReturned =>
    split at hstep <;> cases hstep
    rename_i rest hstack
    exact h.pop hstack
  case resume reads => exact resume_sending h options reads hstep
  case sendDATAAccepted =>
    split at hstep <;> cases hstep
    rename_i rest stream hstack hstream
    refine h.of_eq rfl fun code hcode => ?_
    rcases List.mem_cons.mp hcode with rfl | hmem
    · exact .inr (.inr (.inl rfl))
    · exact .inl (by rw [hstack]; exact List.mem_cons_of_mem _ hmem)
  case sendDATARefused =>
    split at hstep <;> cases hstep
    rename_i draining rest hstack
    refine h.of_eq rfl fun code hcode => .inl ?_
    rw [hstack]
    exact List.mem_cons_of_mem _ (List.mem_cons_of_mem _ hcode)
  case sendDATAReturned =>
    split at hstep <;> cases hstep
    rename_i rest hstack
    exact h.pop hstack
  case streamStateChanged state =>
    obtain ⟨stream, -, rfl⟩ := Option.map_eq_some_iff.mp hstep
    exact h.of_eq rfl fun _ => .inl
  case uploadFinished =>
    split at hstep
    · cases hstep
    · split at hstep <;> cases hstep
      refine uploadFinished_sending ?_ options
      exact h.of_eq rfl fun _ => .inl
  case bytesWritten bytes =>
    split at hstep <;> cases hstep
    exact h.of_eq rfl fun _ => .inl

/-- A handler begins by sending. -/
theorem fresh_sending (options : HandlerOptions) : Sending (fresh options) :=
  ⟨rfl, fun _ hcode => nomatch hcode⟩

/-- A quiet step leaves the operation as it is. -/
theorem Quiet.finished {rpc next : Rpc} (h : Quiet rpc next) :
    next.operationFinished = rpc.operationFinished := h.choose_spec.2.2

/-- A message that is too long finishes a handler under construction. -/
theorem writeMessage_fresh_finished (options : HandlerOptions) {data : Bytes}
    (compressed : Option Bytes) (hdata : GrpcMaxPayloadSize < data.length) :
    ((fresh options).writeMessage options data compressed).operationFinished = true := by
  unfold writeMessage
  rw [if_neg (by simp [fresh, State.ended, isStreamClosedForSending]), if_pos hdata]
  simp [finish, fresh, contextFinished, push, emit]

end Rpc

/-- Sending the request of a handler of the channel keeps to sending. -/
theorem ChannelHandler.sendInitialRequest_sending {handler : ChannelHandler}
    (h : handler.rpc.Sending) (sendHEADERS : Bool) :
    (handler.sendInitialRequest sendHEADERS).rpc.Sending := by
  unfold ChannelHandler.sendInitialRequest
  split
  · exact h
  · exact Rpc.sendInitialRequest_sending h handler.options sendHEADERS

/-- Sending the request does not finish the operation. -/
theorem ChannelHandler.sendInitialRequest_finished (handler : ChannelHandler) (sendHEADERS : Bool) :
    (handler.sendInitialRequest sendHEADERS).rpc.operationFinished =
      handler.rpc.operationFinished := by
  unfold ChannelHandler.sendInitialRequest
  split
  · rfl
  · exact (Rpc.sendInitialRequest_quiet handler.options handler.rpc sendHEADERS).finished

namespace Http2Channel

/-- No step forgets a handler. -/
theorem visit_length {channel next : Http2Channel} {sendHEADERS : Bool}
    (hvisit : channel.visit sendHEADERS = some next) :
    next.handlers.length = channel.handlers.length := by
  unfold visit at hvisit
  split at hvisit
  · cases hvisit
  · obtain ⟨handler, -, rfl⟩ := Option.map_eq_some_iff.mp hvisit
    split
    · rfl
    split
    · rfl
    · simp
  · cases hvisit
    simp [connectionLost, deleteExpired]
  · split at hvisit
    · cases hvisit
    split at hvisit
    · cases hvisit
      rfl
    split at hvisit
    · cases hvisit
      rfl
    split at hvisit <;> cases hvisit
    simp
  · cases hvisit
    simp [deleteExpired]

/-- The failures of a start are deferred: the RPC is turned down before it gets a handler, or the
length prefix can announce its message. -/
def DefersFailure (channel : Http2Channel) (request : StartRequest) : Prop :=
  ¬ request.writable ∧ channel.state = .connected ∨ request.data.length ≤ Rpc.GrpcMaxPayloadSize

instance (channel : Http2Channel) (request : StartRequest) :
    Decidable (channel.DefersFailure request) :=
  inferInstanceAs (Decidable (_ ∨ _))

/-- A new handler joins the others, with an operation that is being sent if failures are deferred
and has finished otherwise. -/
theorem processOperation_handlers (channel : Http2Channel) (request : StartRequest) :
    ∃ handler, (channel.processOperation request).handlers = channel.handlers ++ [handler] ∧
      (channel.DefersFailure request → handler.rpc.Sending) ∧
      (¬ channel.DefersFailure request → handler.rpc.operationFinished = true) := by
  unfold processOperation
  split
  · rename_i hturned
    refine ⟨_, rfl, fun _ => ⟨rfl, fun code hcode => nomatch hcode⟩, fun hdefers => ?_⟩
    exact absurd (.inl hturned) hdefers
  rename_i hturned
  extract_lets handler
  have hsending (hdefers : channel.DefersFailure request) : handler.rpc.Sending :=
    Rpc.writeMessage_sending (Rpc.fresh_sending request.options) request.options
      request.compressed (hdefers.resolve_left hturned)
  have hfinished (hdefers : ¬ channel.DefersFailure request) :
      handler.rpc.operationFinished = true :=
    Rpc.writeMessage_fresh_finished request.options request.compressed
      (Nat.lt_of_not_le fun hdata => hdefers (.inr hdata))
  split
  · refine ⟨_, rfl, fun hdefers => Rpc.asyncFinish_sending (hsending hdefers) _, fun hdefers => ?_⟩
    exact (Rpc.asyncFinish_quiet _ _).finished.trans (hfinished hdefers)
  extract_lets attached sent added
  obtain ⟨hsame, hstack⟩ : attached.rpc.operationFinished = handler.rpc.operationFinished ∧
      attached.rpc.stack = handler.rpc.stack := by
    unfold attached
    split <;> exact ⟨rfl, rfl⟩
  refine ⟨sent, ?_, fun hdefers => ?_, fun hdefers => ?_⟩
  · split <;> rfl
  · have hstill := (hsending hdefers).of_eq hsame (by rw [hstack]; exact fun _ => .inl)
    unfold sent
    split
    · exact ChannelHandler.sendInitialRequest_sending hstill request.sendHEADERS
    · exact hstill
  · have hstill := hsame.trans (hfinished hdefers)
    unfold sent
    split
    · rw [ChannelHandler.sendInitialRequest_finished, hstill]
    · exact hstill

/-- A step of the channel loses no handler. -/
theorem step_length {env : Environment} {channel next : Http2Channel} {event : ChannelEvent}
    (hstep : step env channel event = some next) :
    channel.handlers.length ≤ next.handlers.length := by
  cases event <;> simp only [step] at hstep
  case connected streamError =>
    split at hstep <;> cases hstep
    simp [createHttp2Connection]
  case settingsFrameReceived =>
    split at hstep
    · split at hstep <;> cases hstep <;> exact le_rfl
    · cases hstep
  case socketError errorCode =>
    split at hstep <;> cases hstep
    exact le_rfl
  case connectTimeout =>
    split at hstep <;> cases hstep
    exact le_rfl
  case reconnectTimeout =>
    split at hstep <;> cases hstep
    exact le_rfl
  case start request =>
    split at hstep <;> cases hstep
    obtain ⟨handler, hhandlers, -⟩ := processOperation_handlers channel request
    simp [hhandlers]
  case visit sendHEADERS =>
    split at hstep
    · exact (visit_length hstep).ge
    · cases hstep
  case rpc index input =>
    split at hstep
    · cases hstep
    split at hstep
    · obtain ⟨rpc, -, rfl⟩ := Option.map_eq_some_iff.mp hstep
      simp
    · cases hstep

end Http2Channel

namespace Client

variable {set : FlatSet OperationId}

/-- The operation of a start call in flight has not finished, nor has any operation in the set. -/
structure FinishesLate (client : Client set) : Prop where
  starting : ∀ op rpc, client.starting = some op → client.rpc? op = some rpc →
    rpc.operationFinished = false
  active : ∀ op ∈ set.elements client.activeStreams, ∀ rpc, client.rpc? op = some rpc →
    rpc.operationFinished = false

/-- A start that the current channel turns down or takes with its whole message. -/
def StartsDeferred (client : Client set) : ClientEvent → Prop
  | .start request => ∀ i ∈ client.channel, ∀ channel ∈ client.channels[i]?,
    channel.DefersFailure request
  | _ => True

instance (client : Client set) : ∀ event, Decidable (client.StartsDeferred event)
  | .start request => inferInstanceAs (Decidable (∀ i ∈ client.channel,
    ∀ channel ∈ client.channels[i]?, channel.DefersFailure request))
  | .construct _ | .attachChannel _ | .cancelNext | .channelAttached | .startReturned
  | .channel _ _ => .isTrue trivial

/-- The operation of a start call in flight is being sent, and those in the set are unfinished. -/
structure Deferring (client : Client set) : Prop where
  starting : ∀ op, client.starting = some op → ∃ rpc, client.rpc? op = some rpc ∧ rpc.Sending
  active : ∀ op ∈ set.elements client.activeStreams, ∃ rpc, client.rpc? op = some rpc ∧
    rpc.operationFinished = false

/-- Where the starts are deferred, no operation is finished while it is started. -/
theorem Deferring.finishesLate {client : Client set} (h : Deferring client) :
    FinishesLate client where
  starting op rpc hop hrpc := by
    obtain ⟨found, hfound, hsending⟩ := h.starting op hop
    obtain rfl := Option.some.inj (hfound.symm.trans hrpc)
    exact hsending.unfinished
  active op hop rpc hrpc := by
    obtain ⟨found, hfound, hunfinished⟩ := h.active op hop
    obtain rfl := Option.some.inj (hfound.symm.trans hrpc)
    exact hunfinished

/-- An operation's handler is found in its channel, at its place. -/
theorem rpc?_eq_some {client : Client set} {op : OperationId} {rpc : Rpc} :
    client.rpc? op = some rpc ↔ ∃ channel handler, client.channels[op.channel]? = some channel ∧
      channel.handlers[op.index]? = some handler ∧ handler.rpc = rpc := by
  simp [rpc?, Option.bind_eq_some_iff]

/-- The operations of the other channels are left alone. -/
theorem rpc?_withChannel_of_ne (client : Client set) {i : Nat} (before after : Http2Channel)
    {op : OperationId} (hop : op.channel ≠ i) :
    (client.withChannel i before after).rpc? op = client.rpc? op := by
  rw [rpc?, rpc?, withChannel, List.getElem?_set_ne (Ne.symm hop)]

/-- The operations of the channel are those of its new state. -/
theorem rpc?_withChannel {client : Client set} {i : Nat} {before : Http2Channel}
    (hbefore : client.channels[i]? = some before) (after : Http2Channel) {op : OperationId}
    (hop : op.channel = i) : (client.withChannel i before after).rpc? op =
      after.handlers[op.index]?.map ChannelHandler.rpc := by
  have hi := (List.getElem?_eq_some_iff.mp hbefore).1
  rw [rpc?, hop, withChannel, List.getElem?_set_self hi, Option.bind_some]

/-- The active streams of a client are those before without the ones that the step ended. -/
theorem mem_withChannel (hset : set.Lawful) (client : Client set) {i : Nat}
    (before after : Http2Channel) {op : OperationId} :
    op ∈ set.elements (client.withChannel i before after).activeStreams ↔
      op ∈ set.elements client.activeStreams ∧
        (op.channel = i → before.leaves after op.index = false) := by
  simp [withChannel, FlatSet.elements_removeAll hset, imp_iff_not_or]

/-- An operation in a step of some channel. -/
theorem rpc?_step {client : Client set} {i : Nat} {before after : Http2Channel}
    (hbefore : client.channels[i]? = some before)
    (hlength : before.handlers.length ≤ after.handlers.length) {op : OperationId} {rpc : Rpc}
    (hrpc : client.rpc? op = some rpc) :
    ∃ later, (client.withChannel i before after).rpc? op = some later ∧
      (op.channel ≠ i ∧ later = rpc ∨ op.channel = i ∧ ∃ earlier handler,
        before.handlers[op.index]? = some earlier ∧ after.handlers[op.index]? = some handler ∧
        earlier.rpc = rpc ∧ handler.rpc = later) := by
  by_cases hi : op.channel = i
  · obtain ⟨channel, earlier, hchannel, hearlier, rfl⟩ := rpc?_eq_some.mp hrpc
    rw [hi, hbefore] at hchannel
    obtain rfl := Option.some.inj hchannel
    have hindex := (List.getElem?_eq_some_iff.mp hearlier).1
    obtain ⟨handler, hhandler⟩ : ∃ handler, after.handlers[op.index]? = some handler :=
      ⟨_, List.getElem?_eq_getElem (hindex.trans_le hlength)⟩
    exact ⟨handler.rpc, by rw [rpc?_withChannel hbefore after hi, hhandler]; rfl,
      .inr ⟨hi, earlier, handler, hearlier, hhandler, rfl, rfl⟩⟩
  · exact ⟨rpc, by rw [rpc?_withChannel_of_ne client before after hi, hrpc], .inl ⟨hi, rfl⟩⟩

/-- What an operation in the set keeps as long as it does not leave, those still in the set have
kept. -/
theorem active_withChannel (hset : set.Lawful) {client : Client set} {i : Nat}
    {before after : Http2Channel} (hbefore : client.channels[i]? = some before)
    (hlength : before.handlers.length ≤ after.handlers.length) {P : Rpc → Prop}
    (hP : ∀ earlier later : Rpc, earlier.leaves later = false → P earlier → P later)
    (hactive : ∀ op ∈ set.elements client.activeStreams, ∃ rpc, client.rpc? op = some rpc ∧ P rpc)
    (op : OperationId)
    (hop : op ∈ set.elements (client.withChannel i before after).activeStreams) :
    ∃ rpc, (client.withChannel i before after).rpc? op = some rpc ∧ P rpc := by
  obtain ⟨hmem, hstays⟩ := (mem_withChannel hset client before after).mp hop
  obtain ⟨rpc, hrpc, hkept⟩ := hactive op hmem
  obtain ⟨later, hlater, ⟨-, rfl⟩ | ⟨hi, earlier, handler, hearlier, hhandler, rfl, rfl⟩⟩ :=
    rpc?_step hbefore hlength hrpc
  · exact ⟨later, hlater, hkept⟩
  · refine ⟨handler.rpc, hlater, hP earlier.rpc handler.rpc ?_ hkept⟩
    simpa [Http2Channel.leaves, hearlier, hhandler] using hstays hi

/-- A handler that is not left has not finished. -/
theorem unfinished_of_leaves {earlier later : Rpc} (h : earlier.leaves later = false)
    (hearlier : earlier.operationFinished = false) : later.operationFinished = false := by
  simp only [Rpc.leaves, hearlier, Bool.or_eq_false_iff] at h
  simpa using h.1

/-- A handler that is not left keeps its context. -/
theorem context_of_leaves {earlier later : Rpc} (h : earlier.leaves later = false)
    (hearlier : earlier.context = true) : later.context = true := by
  simp only [Rpc.leaves, hearlier, Bool.or_eq_false_iff] at h
  simpa using h.2

/-- A new client defers its starts. -/
theorem construct_deferring (hset : set.Lawful) : Deferring (construct set) where
  starting := by simp [construct]
  active := by simp [construct, hset.elements_empty]

/-- An operation is found as long as its channel is. -/
theorem rpc?_of_channels {client next : Client set} (h : next.channels = client.channels)
    (op : OperationId) : next.rpc? op = client.rpc? op := by
  rw [rpc?, rpc?, h]

/-- The channels change in a way that no operation in the set notices. -/
theorem Deferring.of_channels {client next : Client set} (h : Deferring client)
    (hchannels : next.channels = client.channels) (hstarting : next.starting = client.starting)
    (hactive : next.activeStreams = client.activeStreams) : Deferring next where
  starting op hop := by
    rw [rpc?_of_channels hchannels]
    exact h.starting op (by rwa [hstarting] at hop)
  active op hop := by
    rw [rpc?_of_channels hchannels]
    exact h.active op (by rwa [hactive] at hop)

/-- A new channel changes no operation. -/
theorem rpc?_construct {client : Client set} {op : OperationId} {rpc : Rpc}
    (hrpc : client.rpc? op = some rpc) (channel : Http2Channel) :
    ({ client with channels := client.channels ++ [channel] } : Client set).rpc? op = some rpc := by
  obtain ⟨found, handler, hfound, hhandler, rfl⟩ := rpc?_eq_some.mp hrpc
  refine rpc?_eq_some.mpr ⟨found, handler, ?_, hhandler, rfl⟩
  rw [List.getElem?_append_left (List.getElem?_eq_some_iff.mp hfound).1, hfound]

/-- A new channel changes nothing about the starts. -/
theorem Deferring.construct {client : Client set} (h : Deferring client)
    (channel : Http2Channel) :
    Deferring { client with channels := client.channels ++ [channel] } where
  starting op hop := by
    obtain ⟨rpc, hrpc, hsending⟩ := h.starting op hop
    exact ⟨rpc, rpc?_construct hrpc channel, hsending⟩
  active op hop := by
    obtain ⟨rpc, hrpc, hunfinished⟩ := h.active op hop
    exact ⟨rpc, rpc?_construct hrpc channel, hunfinished⟩

/-- A cancellation is a step of the operation's channel. -/
theorem cancel_eq_some {client next : Client set} {op : OperationId}
    (hcancel : client.cancel op = some next) : ∃ channel handler,
      client.channels[op.channel]? = some channel ∧ channel.handlers[op.index]? = some handler ∧
      handler.rpc.context = true ∧
      next = client.withChannel op.channel channel { channel with
        handlers := channel.handlers.set op.index { handler with rpc := handler.rpc.cancel } } := by
  unfold Client.cancel at hcancel
  split at hcancel
  · cases hcancel
  rename_i channel hchannel
  split at hcancel
  · cases hcancel
  rename_i handler hhandler
  split at hcancel <;> cases hcancel
  rename_i hcontext
  exact ⟨channel, handler, hchannel, hhandler, by simpa using hcontext, rfl⟩

/-- Cancelling an operation keeps the starts deferred. -/
theorem Deferring.cancel (hset : set.Lawful) {client next : Client set} (h : Deferring client)
    (hreturned : client.returned = true) {op : OperationId}
    (hcancel : client.cancel op = some next) : Deferring next := by
  obtain ⟨channel, handler, hchannel, -, -, rfl⟩ := cancel_eq_some hcancel
  have hidle : client.starting = none := by
    simpa using (Bool.and_eq_true_iff.mp hreturned).1
  refine ⟨fun op hop => ?_, active_withChannel hset hchannel (by simp)
    (fun _ _ => unfinished_of_leaves) h.active⟩
  simp only [withChannel, hidle] at hop
  cases hop

/-- A start call is a step of the current channel, to which it adds an operation. -/
theorem initOperation_eq_some {client next : Client set} {request : StartRequest}
    (hstart : client.initOperation request = some next) : ∃ i channel handler,
      client.channel = some i ∧ client.channels[i]? = some channel ∧
      (channel.processOperation request).handlers = channel.handlers ++ [handler] ∧
      (channel.DefersFailure request → handler.rpc.Sending) ∧
      (¬ channel.DefersFailure request → handler.rpc.operationFinished = true) ∧
      next = { client.withChannel i channel (channel.processOperation request) with
        starting := some ⟨i, channel.handlers.length⟩ } := by
  unfold Client.initOperation at hstart
  split at hstart
  · cases hstart
  rename_i i hcurrent
  obtain ⟨channel, hchannel, rfl⟩ := Option.map_eq_some_iff.mp hstart
  obtain ⟨handler, hhandlers, hsending, hfinished⟩ := channel.processOperation_handlers request
  exact ⟨i, channel, handler, hcurrent, hchannel, hhandlers, hsending, hfinished, rfl⟩

/-- The operation that a start call adds. -/
theorem rpc?_start {client : Client set} {i : Nat} {channel next : Http2Channel}
    (hchannel : client.channels[i]? = some channel) {handler : ChannelHandler}
    (hhandlers : next.handlers = channel.handlers ++ [handler]) :
    (client.withChannel i channel next).rpc? ⟨i, channel.handlers.length⟩ = some handler.rpc := by
  rw [rpc?_withChannel hchannel next rfl, hhandlers]
  simp

/-- Starting an operation that defers its end keeps the starts deferred. -/
theorem Deferring.initOperation (hset : set.Lawful) {client next : Client set}
    (h : Deferring client) {request : StartRequest}
    (hdefers : client.StartsDeferred (.start request))
    (hstart : client.initOperation request = some next) : Deferring next := by
  obtain ⟨i, channel, handler, hcurrent, hchannel, hhandlers, hsending, -, rfl⟩ :=
    initOperation_eq_some hstart
  refine ⟨fun op hop => ?_, active_withChannel hset hchannel (by simp [hhandlers])
    (fun _ _ => unfinished_of_leaves) h.active⟩
  obtain rfl : (⟨i, channel.handlers.length⟩ : OperationId) = op := Option.some.inj hop
  exact ⟨handler.rpc, rpc?_start hchannel hhandlers,
    hsending (hdefers i hcurrent channel hchannel)⟩

/-- A channel takes a step while no start call is in flight, or the step continues it. -/
theorem Deferring.channel (hset : set.Lawful) {env : Environment} {client : Client set}
    (h : Deferring client) {i : Nat} {channel next : Http2Channel} {event : ChannelEvent}
    (hchannel : client.channels[i]? = some channel) (hmay : client.mayTake i event = true)
    (hstep : channel.step env event = some next) :
    Deferring (client.withChannel i channel next) := by
  refine ⟨fun op hop => ?_, active_withChannel hset hchannel (Http2Channel.step_length hstep)
    (fun _ _ => unfinished_of_leaves) h.active⟩
  have hstarting : client.starting = some op := hop
  obtain ⟨rpc, hrpc, hsending⟩ := h.starting op hstarting
  cases event <;> simp only [mayTake, hstarting, Option.isNone_some, Bool.false_and] at hmay <;>
    try cases hmay
  case rpc j input =>
    obtain ⟨hop, hinput⟩ : op = ⟨i, j⟩ ∧ input.startsOn = true := by simpa using hmay
    subst hop
    obtain ⟨found, handler, hfound, hhandler, rfl⟩ := rpc?_eq_some.mp hrpc
    obtain rfl := Option.some.inj (hfound.symm.trans hchannel)
    simp only [Http2Channel.step, hhandler] at hstep
    split at hstep
    · obtain ⟨after, hafter, rfl⟩ := Option.map_eq_some_iff.mp hstep
      have hj := (List.getElem?_eq_some_iff.mp hhandler).1
      refine ⟨after, ?_, Rpc.step_sending hsending hinput hafter⟩
      rw [rpc?_withChannel hchannel _ rfl]
      simp [List.getElem?_set_self hj]
    · cases hstep

/-- One event keeps failures deferred. -/
theorem step_deferring (hset : set.Lawful) {env : Environment} {client next : Client set}
    {event : ClientEvent} (h : Deferring client) (hdefers : client.StartsDeferred event)
    (hstep : step env client event = some next) : Deferring next := by
  cases event <;> simp only [step] at hstep
  case construct connectTimeoutEnabled =>
    split at hstep <;> cases hstep
    exact h.construct _
  case attachChannel channel =>
    split at hstep <;> cases hstep
    unfold Client.attachChannel
    split
    · exact h
    · exact h.of_channels rfl rfl rfl
  case cancelNext =>
    split at hstep
    · cases hstep
    split at hstep
    · rename_i loop loops hloops hready
      obtain ⟨op, -, hstep⟩ := Option.bind_eq_some_iff.mp hstep
      obtain ⟨cancelled, hcancelled, rfl⟩ := Option.map_eq_some_iff.mp hstep
      exact (h.cancel hset hready.1 hcancelled).of_channels rfl rfl rfl
    · cases hstep
  case channelAttached =>
    split at hstep
    · cases hstep
    split at hstep <;> cases hstep
    exact h.of_channels rfl rfl rfl
  case start request =>
    split at hstep
    · exact h.initOperation hset hdefers hstep
    · cases hstep
  case startReturned =>
    split at hstep
    · cases hstep
    rename_i op hop
    split at hstep <;> cases hstep
    refine ⟨fun _ hother => (nomatch hother), fun other hother => ?_⟩
    rcases (hset.mem_insert _ _ _).mp hother with rfl | hother
    · obtain ⟨rpc, hrpc, hsending⟩ := h.starting other hop
      exact ⟨rpc, hrpc, hsending.unfinished⟩
    · exact h.active other hother
  case channel i event =>
    split at hstep
    · cases hstep
    rename_i channel hchannel
    split at hstep
    · rename_i hmay
      obtain ⟨after, hafter, rfl⟩ := Option.map_eq_some_iff.mp hstep
      exact h.channel hset hchannel hmay hafter
    · cases hstep

/-- A start with a message that is too long finishes the operation inside the call. -/
theorem step_finishes {env : Environment} {client next : Client set} {event : ClientEvent}
    (hdefers : ¬ client.StartsDeferred event) (hstep : step env client event = some next) :
    ¬ FinishesLate next := by
  cases event with
  | start request =>
    simp only [StartsDeferred, Option.mem_def, not_forall] at hdefers
    obtain ⟨i, hcurrent, channel, hchannel, hdefers⟩ := hdefers
    simp only [step] at hstep
    split at hstep
    swap
    · cases hstep
    obtain ⟨i', channel', handler, hcurrent', hchannel', hhandlers, -, hfinished, rfl⟩ :=
      initOperation_eq_some hstep
    obtain rfl := Option.some.inj (hcurrent.symm.trans hcurrent')
    obtain rfl := Option.some.inj (hchannel.symm.trans hchannel')
    intro hlate
    have hunfinished := hlate.starting _ handler.rpc rfl (rpc?_start hchannel hhandlers)
    rw [hfinished hdefers] at hunfinished
    cases hunfinished
  | _ => exact absurd trivial hdefers

end Client

open Client Transition

/-- In a run of a client, whatever flat set it keeps its operations in, no operation finishes inside
its start call and none that has finished is in the set, if and only if every start is either turned
down or begins with a message whose length can be announced. -/
theorem finishesLate_iff (set : FlatSet OperationId) (hset : set.Lawful) (env : Environment)
    (events : List ClientEvent) (final : Client set)
    (hrun : run (Client.step env) (construct set) events = some final) :
    (∀ before after reached, events = before ++ after →
      run (Client.step env) (construct set) before = some reached → FinishesLate reached) ↔
    Along (Client.step env) StartsDeferred (construct set) events := by
  constructor
  · exact along_of_reached (Client.step env) StartsDeferred Deferring FinishesLate
      (fun _ _ _ => step_deferring hset) (fun _ _ _ _ => step_finishes) _ final events
      (construct_deferring hset) hrun
  · rintro halong before after reached rfl hreached
    exact (run_invariant_along (Client.step env) StartsDeferred Deferring
      (fun _ _ _ => step_deferring hset) _ reached before (construct_deferring hset)
      (along_of_append _ _ _ before after halong) hreached).finishesLate

/-- A stream is started before the channel is connected, which then gets no stream for it. -/
def startedThenRefused : List ClientEvent :=
  [.construct true, .attachChannel 0, .channelAttached, .start bidiRequest, .startReturned,
    .channel 0 (.connected fun _ => some "StreamIdsExhausted"),
    .channel 0 (.rpc 0 (.callback (.asyncFinish ⟨.unavailable,
      "Unable to create an HTTP/2 stream (StreamIdsExhausted)"⟩)))]

/-- A call that is started and then refused finishes after its start has returned. -/
theorem finishesLate_startedThenRefused :
    ∃ final, run (Client.step plainEnvironment) (construct (Slots.flatSet OperationId))
        startedThenRefused = some final ∧
      ∀ before after reached, startedThenRefused = before ++ after →
        run (Client.step plainEnvironment) (construct (Slots.flatSet OperationId)) before =
          some reached → FinishesLate reached := by
  obtain ⟨final, hrun⟩ := Option.isSome_iff_exists.mp
    (show (run (Client.step plainEnvironment) (construct (Slots.flatSet OperationId))
      startedThenRefused).isSome = true by decide)
  exact ⟨final, hrun, (finishesLate_iff (Slots.flatSet OperationId) Slots.lawful plainEnvironment
    startedThenRefused final hrun).mpr (by decide)⟩

/-- A bidirectional stream that starts with one byte more than can be announced. -/
def tooLongRequest : StartRequest := { bidiRequest with data := List.replicate (2 ^ 32) 0 }

/-- It finishes inside its start call. -/
theorem not_finishesLate_tooLongRequest :
    ∃ final : Client (Slots.flatSet OperationId), run (Client.step plainEnvironment)
        (construct (Slots.flatSet OperationId))
        ([.construct true, .attachChannel 0, .channelAttached] ++ [.start tooLongRequest]) =
          some final ∧ ¬ FinishesLate final := by
  obtain ⟨client, hclient⟩ := Option.isSome_iff_exists.mp
    (show (run (Client.step plainEnvironment) (construct (Slots.flatSet OperationId))
      [.construct true, .attachChannel 0, .channelAttached]).isSome = true by decide)
  have hattached : (run (Client.step plainEnvironment) (construct (Slots.flatSet OperationId))
      [.construct true, .attachChannel 0, .channelAttached]).any (fun client =>
        client.userRuns && client.channel == some 0 && client.channels[0]?.isSome) = true := by
    decide
  rw [hclient, Option.any_some] at hattached
  simp only [Bool.and_eq_true, beq_iff_eq] at hattached
  obtain ⟨⟨huser, hcurrent⟩, hchannel⟩ := hattached
  obtain ⟨channel, hchannel⟩ := Option.isSome_iff_exists.mp hchannel
  obtain ⟨final, hfinal⟩ : ∃ final, Client.step plainEnvironment client (.start tooLongRequest) =
      some final := by
    simp [Client.step, huser, Client.initOperation, hcurrent, hchannel]
  refine ⟨final, ?_, step_finishes (fun hdefers => ?_) hfinal⟩
  · rw [run_append, hclient, Option.bind_some, run_cons, hfinal]
    rfl
  · rcases hdefers 0 hcurrent channel hchannel with hturned | hshort
    · exact hturned.1 rfl
    · rw [show tooLongRequest.data = List.replicate (2 ^ 32) 0 from rfl, List.length_replicate]
        at hshort
      exact absurd hshort (by decide)

end QtGrpc.Http2
