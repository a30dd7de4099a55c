import QtGrpc.Http2.Connection
import QtGrpc.Http2.Finish
import QtGrpc.Http2.Outgoing

/-!
# The loss of the connection

Every unfinished RPC is carried by the current connection, is about to finish, or waits untouched
while an attempt to connect is pending. Each step keeps this but one: the end of
`handleSocketError` drops the connection and schedules nothing, so an RPC that a slot started in
the meantime is left behind unless it waits for a timer that runs already.
-/

namespace QtGrpc.Http2

namespace Rpc

/-- An unfinished handler whose context is alive. -/
def Open (rpc : Rpc) : Prop :=
  rpc.alive = true ∧ rpc.context = true ∧ rpc.state.ended = false

/-- The event loop is going to finish the RPC. -/
def AsyncFinishes (rpc : Rpc) : Prop := ∃ status, .asyncFinish status ∈ rpc.pending

instance (rpc : Rpc) : Decidable rpc.Open :=
  inferInstanceAs (Decidable (_ ∧ _ ∧ _))

instance (rpc : Rpc) : Decidable rpc.AsyncFinishes :=
  decidable_of_iff (rpc.pending.any fun | .asyncFinish _ => true | _ => false) <| by
    simp only [List.any_eq_true, AsyncFinishes]
    constructor
    · rintro ⟨callback, hmem, hasync⟩
      cases callback with
      | asyncFinish status => exact ⟨status, hmem⟩
      | messageWritten => cases hasync
      | contextFinished status => cases hasync
    · rintro ⟨status, hmem⟩
      exact ⟨_, hmem, rfl⟩

/-- Everything accepted is still in the queue, and no code in flight is going to take it out. -/
def Intact (rpc : Rpc) : Prop :=
  rpc.queue = accepted rpc.trace ∧ ∀ draining, .processQueue draining ∉ rpc.stack

/-- The RPC runs no code that its channel would have left behind. -/
def OwnStack (rpc : Rpc) : Prop :=
  .connectionDeleted ∉ rpc.stack ∧ .channelDestroyed ∉ rpc.stack

/-- What an RPC keeps of the service it gets as long as it stays open. -/
structure Stays (rpc next : Rpc) : Prop where
  stack : rpc.OwnStack → next.OwnStack
  wasOpen : next.Open → rpc.Open
  idle : next.Open → (next.state = .idle ↔ rpc.state = .idle)
  stream : next.Open → next.stream.isSome = rpc.stream.isSome
  asyncFinishes : next.Open → rpc.AsyncFinishes → next.AsyncFinishes
  intact : next.Open → rpc.state = .idle → rpc.Intact → next.Intact

/-- Nothing happens. -/
theorem Stays.refl (rpc : Rpc) : Stays rpc rpc :=
  ⟨id, id, fun _ => Iff.rfl, fun _ => rfl, fun _ => id, fun _ _ => id⟩

/-- Two steps that keep the service are one. -/
theorem Stays.trans {a b c : Rpc} (hab : Stays a b) (hbc : Stays b c) : Stays a c where
  stack h := hbc.stack (hab.stack h)
  wasOpen h := hab.wasOpen (hbc.wasOpen h)
  idle h := (hbc.idle h).trans (hab.idle (hbc.wasOpen h))
  stream h := (hbc.stream h).trans (hab.stream (hbc.wasOpen h))
  asyncFinishes h hpending := hbc.asyncFinishes h (hab.asyncFinishes (hbc.wasOpen h) hpending)
  intact h hidle hintact :=
    hbc.intact h ((hab.idle (hbc.wasOpen h)).mpr hidle) (hab.intact (hbc.wasOpen h) hidle hintact)

/-- An RPC that is no longer open has nothing to keep. -/
theorem Stays.closed {rpc next : Rpc} (hstack : rpc.OwnStack → next.OwnStack)
    (hclosed : ¬ next.Open) : Stays rpc next :=
  ⟨hstack, fun h => absurd h hclosed, fun h => absurd h hclosed, fun h => absurd h hclosed,
    fun h => absurd h hclosed, fun h => absurd h hclosed⟩

/-- A step that changes nothing of what counts. -/
theorem Stays.of_eq {rpc next : Rpc} (halive : next.alive = rpc.alive)
    (hcontext : next.context = rpc.context) (hstate : next.state = rpc.state)
    (hstream : next.stream.isSome = rpc.stream.isSome) (hpending : next.pending = rpc.pending)
    (hqueue : rpc.queue = accepted rpc.trace → next.queue = accepted next.trace)
    (hstack : ∀ code ∈ next.stack, code ∈ rpc.stack ∨ code ≠ .connectionDeleted ∧
      code ≠ .channelDestroyed ∧ ∀ draining, code ≠ .processQueue draining) :
    Stays rpc next where
  stack h :=
    ⟨fun hmem => (hstack _ hmem).elim h.1 fun hne => hne.1 rfl,
      fun hmem => (hstack _ hmem).elim h.2 fun hne => hne.2.1 rfl⟩
  wasOpen h := ⟨halive ▸ h.1, hcontext ▸ h.2.1, hstate ▸ h.2.2⟩
  idle _ := by rw [hstate]
  stream _ := hstream
  asyncFinishes _ h := by
    rw [AsyncFinishes, hpending]
    exact h
  intact _ _ h :=
    ⟨hqueue h.1, fun draining hmem =>
      (hstack _ hmem).elim (h.2 draining) fun hne => hne.2.2 draining rfl⟩

/-- An event that accepts nothing keeps it. -/
theorem Stays.emit {rpc next : Rpc} (h : Stays rpc next) {e : Event} (he : accepted [e] = []) :
    Stays rpc (next.emit e) := by
  refine h.trans (.of_eq rfl rfl rfl rfl rfl (fun hqueue => ?_) fun _ => .inl)
  rw [Rpc.emit, accepted_concat, he, List.append_nil]
  exact hqueue

/-- Code that is yet to run keeps it, unless it is the owner's or works on the queue. -/
theorem Stays.push {rpc next : Rpc} (h : Stays rpc next) {added : List Continuation}
    (hadded : ∀ code ∈ added, code ≠ .connectionDeleted ∧ code ≠ .channelDestroyed ∧
      ∀ draining, code ≠ .processQueue draining) : Stays rpc (next.push added) :=
  h.trans (.of_eq rfl rfl rfl rfl rfl id fun code hcode =>
    (List.mem_append.mp hcode).elim (fun hmem => .inr (hadded code hmem)) .inl)

/-- The end of an operation leaves no code of the channel's behind. -/
theorem contextFinished_ownStack {rpc : Rpc} {status : QGrpcStatus} {after : List Continuation}
    (hafter : .connectionDeleted ∉ after ∧ .channelDestroyed ∉ after) (h : rpc.OwnStack) :
    (rpc.contextFinished status after).OwnStack := by
  unfold contextFinished
  split <;> simp_all [OwnStack, push, emit]

/-- Nor does finishing. -/
theorem finish_ownStack {rpc : Rpc} (status : QGrpcStatus) (h : rpc.OwnStack) :
    (rpc.finish status).OwnStack := by
  unfold finish
  split
  · exact h
  · split
    · exact h
    · exact contextFinished_ownStack (by simp) h

/-- A finished RPC is not open. -/
theorem finish_closed (rpc : Rpc) (status : QGrpcStatus) : ¬ (rpc.finish status).Open := by
  rintro ⟨-, -, hended⟩
  rw [finish_state_ended] at hended
  cases hended

/-- A finished RPC needs no service. -/
theorem finish_stays (rpc : Rpc) (status : QGrpcStatus) : Stays rpc (rpc.finish status) :=
  .closed (finish_ownStack status) (finish_closed rpc status)

/-- An RPC that is to finish later keeps its service until then. -/
theorem asyncFinish_stays (rpc : Rpc) (status : QGrpcStatus) :
    Stays rpc (rpc.asyncFinish status) := by
  unfold asyncFinish
  split
  · refine .closed id ?_
    rintro ⟨-, -, hended⟩
    cases hended
  · refine ⟨id, id, fun _ => Iff.rfl, fun _ => rfl, fun _ h => ?_, fun _ _ => id⟩
    obtain ⟨queued, hqueued⟩ := h
    exact ⟨queued, List.mem_append_left _ hqueued⟩

/-- A cancelled RPC needs no service. -/
theorem cancelWithStatus_stays (rpc : Rpc) (status : QGrpcStatus) :
    Stays rpc (rpc.cancelWithStatus status) := by
  unfold cancelWithStatus
  split
  · exact .refl rpc
  · refine .closed (fun h => ?_) (finish_closed _ status)
    apply finish_ownStack
    split
    · split <;> exact h
    · exact h

/-- Nor does an RPC whose operation has finished. -/
theorem contextFinished_stays (rpc : Rpc) (status : QGrpcStatus) (after : List Continuation)
    (hafter : ∀ code ∈ after, code ≠ .connectionDeleted ∧ code ≠ .channelDestroyed ∧
      ∀ draining, code ≠ .processQueue draining) :
    Stays rpc (rpc.contextFinished status after) := by
  unfold contextFinished
  split
  · exact (Stays.refl rpc).push hafter
  · refine Stays.push (Stays.emit ?_ rfl) (by simpa using hafter)
    exact .of_eq rfl rfl rfl rfl rfl id fun _ => .inl

/-- A drain round needs a request that has been sent, or it is one in flight. -/
theorem sendNext_stays (endStreamAtFirstData : Bool) (rpc : Rpc)
    (h : rpc.state ≠ .idle ∨ ∃ draining, .processQueue draining ∈ rpc.stack) :
    Stays rpc (rpc.sendNext endStreamAtFirstData) := by
  unfold sendNext
  split
  · exact .refl rpc
  · refine ⟨fun hown => ?_, id, fun _ => Iff.rfl, fun _ => rfl, fun _ => id,
      fun _ hidle hintact => ?_⟩
    · simpa [OwnStack, push, emit] using hown
    · rcases h with hstate | ⟨draining, hmem⟩
      · exact absurd hidle hstate
      · exact absurd hmem (hintact.2 draining)

/-- The work on the queue keeps the service. -/
theorem processQueue_stays (endStreamAtFirstData : Bool) (rpc : Rpc) :
    Stays rpc (rpc.processQueue endStreamAtFirstData) := by
  unfold processQueue
  split
  · exact .refl rpc
  split
  · exact .refl rpc
  rename_i hstate
  split
  · exact .refl rpc
  split
  · exact .refl rpc
  · refine Stays.trans ?_ (sendNext_stays _ _ (.inl hstate))
    refine ⟨fun hown => ?_, id, fun _ => Iff.rfl, fun _ => rfl, fun _ => id,
      fun _ hidle => absurd hidle hstate⟩
    simpa [OwnStack, push] using hown

/-- Writing a message keeps it. -/
theorem writeMessage_stays (options : HandlerOptions) (rpc : Rpc) (data : Bytes)
    (compressed : Option Bytes) : Stays rpc (rpc.writeMessage options data compressed) := by
  unfold writeMessage
  split
  · exact .refl rpc
  split
  · exact finish_stays rpc _
  · refine Stays.trans ?_ (processQueue_stays _ _)
    refine .of_eq rfl rfl rfl rfl rfl (fun hqueue => ?_) fun _ => .inl
    simp [emit, hqueue, accepted]

/-- Closing the request keeps it. -/
theorem writesDone_stays (options : HandlerOptions) (rpc : Rpc) :
    Stays rpc (rpc.writesDone options) := by
  unfold writesDone
  split
  · exact .refl rpc
  dsimp only
  split
  · exact .of_eq rfl rfl rfl rfl rfl id fun _ => .inl
  · refine Stays.trans ?_ (processQueue_stays _ _)
    refine .of_eq rfl rfl rfl rfl rfl (fun hqueue => ?_) fun _ => .inl
    simp [emit, hqueue, accepted]

/-- The end of an upload keeps it. -/
theorem uploadFinished_stays (options : HandlerOptions) (rpc : Rpc) :
    Stays rpc (rpc.uploadFinished options) := by
  unfold uploadFinished
  extract_lets scheduled
  have hscheduled : Stays rpc scheduled := by
    unfold scheduled
    split
    · refine ⟨id, id, fun _ => Iff.rfl, fun _ => rfl, fun _ h => ?_, fun _ _ => id⟩
      obtain ⟨status, hstatus⟩ := h
      exact ⟨status, List.mem_append_left _ hstatus⟩
    · exact .refl rpc
  split
  · exact hscheduled
  · exact hscheduled.trans (processQueue_stays _ _)

/-- Received headers keep it. -/
theorem headersReceived_stays (env : Environment) (options : HandlerOptions) (rpc : Rpc)
    (headers : HttpHeader) (endStream : Bool) :
    Stays rpc (rpc.headersReceived env options headers endStream) := by
  unfold headersReceived
  split
  · exact .of_eq rfl rfl rfl rfl rfl id fun _ => .inl
  rename_i hended
  split
  · exact .refl rpc
  rename_i phase hphase
  dsimp only
  split
  · refine .closed id ?_
    rintro ⟨-, -, hended⟩
    cases hended
  have hidle : rpc.state ≠ .idle := by
    rintro hidle
    rw [hidle] at hphase
    cases hphase
  have hhandled (negotiatedEncoding : Bytes) (decompressor : Bool) :
      Stays rpc (({ rpc with
        state := .active
        negotiatedEncoding := negotiatedEncoding
        decompressor := decompressor }).emit (.headers phase headers)) := by
    refine ⟨id, fun h => ⟨h.1, h.2.1, by simpa using hended⟩, fun _ => ?_, fun _ => rfl, fun _ => id,
      fun _ h => absurd h hidle⟩
    simp [emit, hidle]
  split
  · exact (hhandled _ _).trans (finish_stays _ _)
  · exact ((hhandled _ _).emit rfl).push (by simp)
  · exact (hhandled _ _).trans (finish_stays _ _)

/-- Received messages keep it. -/
theorem receiveNext_stays (options : HandlerOptions) (rpc : Rpc) (endStream : Bool)
    (reads : List ReadResult) : Stays rpc (rpc.receiveNext options endStream reads) := by
  have hparsed (parser : GrpcDataParser) : Stays rpc { rpc with grpcDataParser := parser } :=
    .of_eq rfl rfl rfl rfl rfl id fun _ => .inl
  unfold receiveNext
  dsimp only
  split
  · split
    · exact hparsed _
    · split <;> exact (hparsed _).trans (finish_stays _ _)
  · exact (hparsed _).trans (finish_stays _ _)
  · split
    · exact (hparsed _).trans (finish_stays _ _)
    · unfold messageReceived
      split
      · exact (((hparsed _).push (by simp)).emit rfl).push (by simp)
      · exact (hparsed _).push (by simp)

/-- Returning from the code on top of the stack. -/
theorem pop_stays {rpc : Rpc} {code : Continuation} {rest : List Continuation}
    (hstack : rpc.stack = code :: rest) : Stays rpc { rpc with stack := rest } :=
  .of_eq rfl rfl rfl rfl rfl id fun _ hc => .inl (by rw [hstack]; exact List.mem_cons_of_mem _ hc)

/-- Code that runs on keeps it. -/
theorem resume_stays {rpc next : Rpc} (options : HandlerOptions) (reads : List ReadResult)
    (hown : rpc.OwnStack) (hstep : rpc.resume options reads = some next) : Stays rpc next := by
  unfold resume at hstep
  split at hstep
  · rename_i rest hstack
    cases hstep
    refine (pop_stays hstack).trans ?_
    exact .of_eq rfl rfl rfl rfl rfl id fun _ => .inl
  · rename_i endStream rest hstack
    cases hstep
    exact (pop_stays hstack).trans (receiveNext_stays options _ endStream reads)
  · rename_i draining rest hstack
    split at hstep
    · cases hstep
    · split at hstep <;> cases hstep
      · exact sendNext_stays _ rpc (.inr ⟨draining, by simp [hstack]⟩)
      · refine (pop_stays hstack).trans ?_
        exact .of_eq rfl rfl rfl rfl rfl id fun _ => .inl
  · rename_i rest hstack
    cases hstep
    refine (pop_stays hstack).trans ?_
    exact .of_eq rfl rfl rfl rfl rfl id fun _ => .inl
  · rename_i rest hstack
    cases hstep
    split
    · exact (pop_stays hstack).trans (cancelWithStatus_stays _ _)
    · exact pop_stays hstack
  · rename_i rest hstack
    exact absurd (by simp [hstack]) hown.1
  · rename_i rest hstack
    exact absurd (by simp [hstack]) hown.2
  · cases hstep

/-- The operation object ends with its handler. -/
theorem destroy_alive (rpc : Rpc) : rpc.destroy.alive = false := by
  rw [destroy, (dropStream_sameEnd _).2.2.1]

/-- Losing the stream leaves the code that is yet to run. -/
@[simp] theorem dropStream_stack (rpc : Rpc) : rpc.dropStream.stack = rpc.stack := by
  unfold dropStream
  split
  · split <;> rfl
  · rfl

/-- And no stream. -/
@[simp] theorem dropStream_stream (rpc : Rpc) : rpc.dropStream.stream = none := by
  unfold dropStream
  split
  · split <;> rfl
  · assumption

/-- What was accepted is still in the queue when the stream is lost. -/
theorem dropStream_intact {rpc : Rpc} (h : rpc.Intact) : rpc.dropStream.Intact := by
  refine ⟨?_, by simpa using h.2⟩
  unfold dropStream
  split
  · split
    · simpa [emit, accepted] using h.1
    · exact h.1
  · exact h.1

/-- Losing the stream finishes nothing. -/
theorem dropStream_open {rpc : Rpc} : rpc.dropStream.Open ↔ rpc.Open := by
  obtain ⟨-, hstate, halive, hcontext, -⟩ := dropStream_sameEnd rpc
  rw [Open, Open, hstate, halive, hcontext]

/-- An RPC without its operation needs no service. -/
theorem destroy_stays (rpc : Rpc) : Stays rpc rpc.destroy := by
  refine .closed (fun h => ?_) fun hopen => ?_
  · simpa [destroy, OwnStack] using h
  · rw [Open, destroy_alive] at hopen
    cases hopen.1

/-- An RPC that takes inputs of its own keeps the service it gets until it finishes. -/
theorem step_stays (env : Environment) (options : HandlerOptions) (rpc next : Rpc) (input : Input)
    (hinput : input.own = true) (hown : rpc.OwnStack)
    (hstep : step env options rpc input = some next) : Stays rpc next := by
  cases input
  all_goals simp only [step] at hstep
  case headersReceived headers endStream =>
    split at hstep <;> cases hstep
    exact headersReceived_stays env options rpc headers endStream
  case dataReceived data endStream =>
    split at hstep <;> cases hstep
    unfold dataReceived
    split
    · exact .refl rpc
    · split
      · exact .refl rpc
      · refine Stays.push ?_ (by simp)
        exact .of_eq rfl rfl rfl rfl rfl id fun _ => .inl
  case errorOccurred code text =>
    split at hstep
    · cases hstep
    · rename_i stream hstream
      split at hstep
      · cases hstep
      · split at hstep <;> cases hstep
        · exact .refl rpc
        · refine Stays.trans ?_ (finish_stays _ _)
          exact .of_eq rfl rfl rfl (by simp [hstream]) rfl id fun _ => .inl
  case bytesWritten bytes =>
    split at hstep <;> cases hstep
    exact .of_eq rfl rfl rfl rfl rfl id fun _ => .inl
  case uploadFinished =>
    split at hstep
    · cases hstep
    · rename_i stream hstream
      split at hstep <;> cases hstep
      refine Stays.trans (Stays.emit ?_ rfl) (uploadFinished_stays options _)
      exact .of_eq rfl rfl rfl (by simp [hstream]) rfl id fun _ => .inl
  case uploadDropped =>
    split at hstep
    · cases hstep
    · rename_i stream hstream
      split at hstep <;> cases hstep
      refine Stays.emit ?_ rfl
      exact .of_eq rfl rfl rfl (by simp [hstream]) rfl id fun _ => .inl
  case streamStateChanged state =>
    obtain ⟨stream, hstream, rfl⟩ := Option.map_eq_some_iff.mp hstep
    exact .of_eq rfl rfl rfl (by simp [hstream]) rfl id fun _ => .inl
  case sendDATAAccepted =>
    split at hstep <;> cases hstep
    rename_i rest stream hstack hstream
    refine Stays.emit ?_ rfl
    refine .of_eq rfl rfl rfl (by simp [hstream]) rfl id fun code hcode => ?_
    rcases List.mem_cons.mp hcode with rfl | hcode
    · exact .inr (by simp)
    · exact .inl (by rw [hstack]; exact List.mem_cons_of_mem _ hcode)
  case sendDATARefused =>
    split at hstep <;> cases hstep
    rename_i draining rest hstack
    refine .of_eq rfl rfl rfl rfl rfl id fun code hcode => .inl ?_
    rw [hstack]
    exact List.mem_cons_of_mem _ (List.mem_cons_of_mem _ hcode)
  case sendDATAReturned =>
    split at hstep <;> cases hstep
    rename_i rest hstack
    exact pop_stays hstack
  case attachStream => cases hinput
  case createStreamFailed error => cases hinput
  case sendInitialRequest sendHEADERS => cases hinput
  case socketError errorCode => cases hinput
  case connectionDeleted => cases hinput
  case channelDestroyed => cases hinput
  case writeMessage data compressed =>
    split at hstep <;> cases hstep
    split
    · exact writeMessage_stays options rpc data compressed
    · exact .refl rpc
  case writeUnserializable messageTooLarge lastErrorString =>
    split at hstep <;> cases hstep
    split
    · exact contextFinished_stays rpc _ _ (by simp)
    · exact .refl rpc
  case writesDone =>
    split at hstep <;> cases hstep
    split
    · exact writesDone_stays options rpc
    · exact .refl rpc
  case cancel =>
    split at hstep <;> cases hstep
    unfold cancel
    split
    · exact .refl rpc
    · exact cancelWithStatus_stays rpc _
  case slotReturned =>
    split at hstep <;> cases hstep
    rename_i rest hstack
    exact pop_stays hstack
  case resume reads => exact resume_stays options reads hown hstep
  case deadlineTimeout =>
    split at hstep <;> cases hstep
    refine Stays.trans ?_ (cancelWithStatus_stays _ _)
    exact .of_eq rfl rfl rfl rfl rfl id fun _ => .inl
  case callback callback =>
    split at hstep
    · cases hstep
    cases callback with
    | messageWritten =>
      have htaken : Stays rpc { rpc with pending := rpc.pending.erase .messageWritten } := by
        refine ⟨id, id, fun _ => Iff.rfl, fun _ => rfl, fun _ h => ?_, fun _ _ => id⟩
        obtain ⟨status, hstatus⟩ := h
        exact ⟨status, (List.mem_erase_of_ne (by simp)).mpr hstatus⟩
      simp only at hstep
      split at hstep
      · cases hstep
      · split at hstep <;> cases hstep
        · exact (htaken.emit rfl).push (by simp)
        · exact htaken
    | asyncFinish status =>
      simp only at hstep
      split at hstep <;> cases hstep
      exact .closed (fun h => finish_ownStack status h) (finish_closed _ status)
    | contextFinished status =>
      have htaken : Stays rpc { rpc with pending := rpc.pending.erase (.contextFinished status) } := by
        refine ⟨id, id, fun _ => Iff.rfl, fun _ => rfl, fun _ h => ?_, fun _ _ => id⟩
        obtain ⟨queued, hqueued⟩ := h
        exact ⟨queued, (List.mem_erase_of_ne (by simp)).mpr hqueued⟩
      simp only at hstep
      split at hstep <;> cases hstep
      exact htaken.trans (contextFinished_stays _ status [] (by simp))
  case deferredDelete =>
    split at hstep <;> cases hstep
    exact destroy_stays rpc
  case contextDestroyed =>
    split at hstep <;> cases hstep
    refine .closed id ?_
    rintro ⟨-, hcontext, -⟩
    cases hcontext

end Rpc

/-- The stream of the RPC belongs to the given connection. -/
def ChannelHandler.CarriedBy (handler : ChannelHandler) (connection : Option Nat) : Prop :=
  connection.isSome = true ∧ handler.carrier = connection ∧ handler.rpc.stream.isSome = true

/-- Every unfinished RPC has a stream of the current connection, or is about to finish, or is idle
with its headers and messages while an attempt to connect is pending; and one whose request has
been sent has a stream of the current connection. -/
def NobodyStranded (channel : Http2Channel) : Prop :=
  ∀ handler ∈ channel.handlers, handler.rpc.Open →
    (handler.rpc.state ≠ .idle → handler.CarriedBy channel.connection) ∧
    (handler.CarriedBy channel.connection ∨ handler.rpc.AsyncFinishes ∨
      handler.rpc.state = .idle ∧ handler.initialHeaders ≠ [] ∧
        handler.rpc.queue = accepted handler.rpc.trace ∧ channel.attemptPending = true)

/-- The unfinished RPC whose request is to be sent next is idle and has its headers. -/
def VisitsIdle (channel : Http2Channel) : Prop :=
  ∀ i remaining expired handler, channel.loop = some (.settings (i :: remaining) expired) →
    channel.handlers[i]? = some handler → handler.rpc.Open →
    handler.rpc.state = .idle ∧ handler.initialHeaders ≠ []

/-- Where `handleSocketError` drops the connection, every RPC that a slot has started since the
loop began, and that is still unfinished, is idle and about to finish, or idle while the timer
that reconnects runs already. -/
def LossSettled (channel : Http2Channel) (event : ChannelEvent) : Prop :=
  ∀ sendHEADERS errorCode existing expired, event = .visit sendHEADERS →
    channel.loop = some (.socketError errorCode existing [] expired) →
    ∀ handler ∈ channel.handlers.drop existing, handler.rpc.Open →
      handler.rpc.state = .idle ∧ (handler.rpc.AsyncFinishes ∨ channel.reconnectTimer = true)

instance (channel : Http2Channel) (event : ChannelEvent) : Decidable (LossSettled channel event) :=
  match event, hloop : channel.loop with
  | .visit sendHEADERS, some (.socketError errorCode existing [] expired) =>
    decidable_of_iff (∀ handler ∈ channel.handlers.drop existing, handler.rpc.Open →
        handler.rpc.state = .idle ∧ (handler.rpc.AsyncFinishes ∨ channel.reconnectTimer = true)) <| by
      refine ⟨fun h _ _ _ _ _ hnext => ?_, fun h => h _ _ _ _ rfl hloop⟩
      obtain ⟨-, rfl, -⟩ := by simpa [hloop] using hnext
      exact h
  | .visit _, none | .visit _, some (.socketError _ _ (_ :: _) _) | .visit _, some (.settings _ _) =>
    isTrue (by simp [LossSettled, hloop])
  | .connected _, _ | .settingsFrameReceived, _ | .socketError _, _ | .connectTimeout, _
  | .reconnectTimeout, _ | .start _, _ | .rpc _ _, _ => isTrue (by simp [LossSettled])

namespace Http2Channel

/-- A socket error is being handled. -/
def losing (channel : Http2Channel) : Bool :=
  match channel.loop with
  | some (.socketError _ _ _ _) => true
  | _ => false

/-- What serves an unfinished RPC. -/
structure Served (channel : Http2Channel) (handler : ChannelHandler) : Prop where
  carried : handler.rpc.stream.isSome = true → handler.CarriedBy channel.connection
  idle : handler.rpc.state = .idle → handler.initialHeaders ≠ [] ∧ handler.rpc.Intact
  sent : handler.rpc.state ≠ .idle →
    handler.CarriedBy channel.connection ∧ channel.state = .settingsReceived
  served : handler.CarriedBy channel.connection ∨ handler.rpc.AsyncFinishes ∨
    handler.rpc.state = .idle ∧ channel.connection = none ∧
      (channel.attemptPending = true ∨ channel.losing = true)

/-- How the connection, the socket, the timers, the loops and the handlers fit together. -/
structure Consistent (channel : Http2Channel) : Prop where
  own : ∀ handler ∈ channel.handlers, handler.rpc.OwnStack
  served : ∀ handler ∈ channel.handlers, handler.rpc.Open → Served channel handler
  connection : channel.connection.isSome = true ↔
    channel.state = .connected ∨ channel.state = .settingsReceived
  socket : channel.losing = false →
    (channel.socket = .connected ↔ channel.connection.isSome = true)
  lost : channel.losing = true → channel.socket = .unconnected
  attempt : channel.state = .connecting → channel.losing = false → channel.attemptPending = true
  visited : ∀ errorCode existing remaining expired,
    channel.loop = some (.socketError errorCode existing remaining expired) →
    existing ≤ channel.handlers.length ∧ (∀ i ∈ remaining ++ expired, i < existing) ∧
      ∀ (i : Nat) (handler : ChannelHandler), i < existing → i ∉ remaining →
        channel.handlers[i]? = some handler → ¬ handler.rpc.Open
  unvisited : ∀ remaining expired, channel.loop = some (.settings remaining expired) →
    channel.state = .settingsReceived ∧ remaining.Nodup ∧
      ∀ i ∈ remaining, i < channel.handlers.length ∧ ∀ handler : ChannelHandler,
        channel.handlers[i]? = some handler → handler.rpc.Open → handler.rpc.state = .idle

/-- What serves an RPC does not depend on the rest of the channel. -/
theorem Served.of_channel {channel next : Http2Channel} {handler : ChannelHandler}
    (h : Served channel handler) (hconnection : next.connection = channel.connection)
    (hstate : channel.state = .settingsReceived → next.state = .settingsReceived)
    (hpending : channel.connection = none → channel.attemptPending = true ∨ channel.losing = true →
      next.attemptPending = true ∨ next.losing = true) : Served next handler where
  carried := hconnection ▸ h.carried
  idle := h.idle
  sent hidle := by
    rw [hconnection]
    exact ⟨(h.sent hidle).1, hstate (h.sent hidle).2⟩
  served := by
    rw [hconnection]
    exact h.served.imp_right (Or.imp_right fun ⟨hidle, hnone, hattempt⟩ =>
      ⟨hidle, hnone, hpending hnone hattempt⟩)

/-- What serves an RPC goes on serving it while it takes inputs of its own. -/
theorem Served.stays {channel : Http2Channel} {handler : ChannelHandler} {rpc : Rpc}
    (h : Served channel handler) (hstays : Rpc.Stays handler.rpc rpc) (hopen : rpc.Open) :
    Served channel { handler with rpc := rpc } where
  carried hstream := by
    obtain ⟨hsome, hcarrier, -⟩ := h.carried ((hstays.stream hopen).symm.trans hstream)
    exact ⟨hsome, hcarrier, hstream⟩
  idle hidle := by
    have hbefore := (hstays.idle hopen).mp hidle
    exact ⟨(h.idle hbefore).1, hstays.intact hopen hbefore (h.idle hbefore).2⟩
  sent hidle := by
    obtain ⟨⟨hsome, hcarrier, hstream⟩, hstate⟩ := h.sent fun hbefore =>
      hidle ((hstays.idle hopen).mpr hbefore)
    exact ⟨⟨hsome, hcarrier, (hstays.stream hopen).trans hstream⟩, hstate⟩
  served := by
    rcases h.served with ⟨hsome, hcarrier, hstream⟩ | hasync | ⟨hidle, hwaits⟩
    · exact .inl ⟨hsome, hcarrier, (hstays.stream hopen).trans hstream⟩
    · exact .inr (.inl (hstays.asyncFinishes hopen hasync))
    · exact .inr (.inr ⟨(hstays.idle hopen).mpr hidle, hwaits⟩)

/-- An open RPC is idle before SETTINGS have arrived. -/
theorem Served.idle_of_state {channel : Http2Channel} {handler : ChannelHandler}
    (h : Served channel handler) (hstate : channel.state ≠ .settingsReceived) :
    handler.rpc.state = .idle := by
  by_contra hidle
  exact hstate (h.sent hidle).2

/-- A handler that still waits for its connection. -/
structure Untouched (handler : ChannelHandler) : Prop where
  idle : handler.rpc.state = .idle
  headers : handler.initialHeaders ≠ []
  intact : handler.rpc.Intact

/-- An idle RPC that is served still waits for its connection. -/
theorem Served.untouched {channel : Http2Channel} {handler : ChannelHandler}
    (h : Served channel handler) (hidle : handler.rpc.state = .idle) : Untouched handler :=
  ⟨hidle, (h.idle hidle).1, (h.idle hidle).2⟩

/-- A handler that waits is served once it has a stream or is about to finish, and where there is
no connection as long as there is going to be one. -/
theorem Untouched.served {channel : Http2Channel} {handler : ChannelHandler}
    (h : Untouched handler)
    (hcarried : handler.rpc.stream.isSome = true → handler.CarriedBy channel.connection)
    (hserved : handler.CarriedBy channel.connection ∨ handler.rpc.AsyncFinishes ∨
      channel.connection = none ∧ (channel.attemptPending = true ∨ channel.losing = true)) :
    Served channel handler where
  carried := hcarried
  idle _ := ⟨h.headers, h.intact⟩
  sent hidle := absurd h.idle hidle
  served := hserved.imp_right (Or.imp_right fun hwaits => ⟨h.idle, hwaits⟩)

/-- A stream of the current connection serves a handler that waits. -/
theorem Untouched.attachStream_served {channel : Http2Channel} {handler : ChannelHandler}
    (h : Untouched handler) {connection : Nat} (hconnection : channel.connection = some connection) :
    Served channel (handler.attachStream connection) := by
  have hcarried : (handler.attachStream connection).CarriedBy channel.connection :=
    ⟨by rw [hconnection]; rfl, hconnection.symm, rfl⟩
  have huntouched : Untouched (handler.attachStream connection) := by
    refine ⟨h.idle, h.headers, ?_, h.intact.2⟩
    simpa [ChannelHandler.attachStream, Rpc.emit, accepted] using h.intact.1
  exact huntouched.served (fun _ => hcarried) (.inl hcarried)

/-- So does the failure to create one, which finishes the RPC. -/
theorem Untouched.createHttp2Stream_served {channel : Http2Channel} {handler : ChannelHandler}
    (h : Untouched handler) {connection : Nat} (hconnection : channel.connection = some connection)
    (hcontext : handler.rpc.context = true) (hstream : handler.rpc.stream.isSome = false)
    (streamError : Option String) :
    Served channel (handler.createHttp2Stream connection streamError) := by
  cases streamError with
  | none => exact h.attachStream_served hconnection
  | some error =>
    have huntouched : Untouched (handler.createHttp2Stream connection (some error)) := by
      refine ⟨?_, h.headers, ?_⟩ <;>
        simp only [ChannelHandler.createHttp2Stream, Rpc.asyncFinish, hcontext, not_true_eq_false,
          if_false]
      · exact h.idle
      · exact h.intact
    refine huntouched.served (fun hsome => ?_) (.inr (.inl ?_))
    · simp only [ChannelHandler.createHttp2Stream, Rpc.asyncFinish, hcontext, not_true_eq_false,
        if_false] at hsome
      rw [hstream] at hsome
      cases hsome
    · simp only [ChannelHandler.createHttp2Stream, Rpc.asyncFinish, hcontext, not_true_eq_false,
        if_false]
      exact ⟨_, List.mem_append_right _ List.mem_cons_self⟩

/-- After SETTINGS the request of a carried handler is sent on its stream, or it finishes. -/
theorem sendInitialRequest_served {channel : Http2Channel} {handler : ChannelHandler}
    (hstate : channel.state = .settingsReceived)
    (hcarried : handler.rpc.Open → handler.CarriedBy channel.connection)
    (h : handler.rpc.Open → Served channel handler) (sendHEADERS : Bool)
    (hopen : (handler.sendInitialRequest sendHEADERS).rpc.Open) :
    Served channel (handler.sendInitialRequest sendHEADERS) := by
  unfold ChannelHandler.sendInitialRequest at hopen ⊢
  split at hopen
  · rename_i hended
    rw [if_pos hended]
    exact h hopen
  rename_i hended
  rw [if_neg hended]
  cases sendHEADERS with
  | false =>
    simp only [Rpc.sendInitialRequest, hended, Bool.false_eq_true, not_false_eq_true, if_true,
      if_false] at hopen ⊢
    exact (h ((Rpc.asyncFinish_stays _ _).wasOpen hopen)).stays (Rpc.asyncFinish_stays _ _) hopen
  | true =>
    simp only [Rpc.sendInitialRequest, hended, Bool.false_eq_true, not_true_eq_false, if_true,
      if_false] at hopen ⊢
    have hstays := Rpc.processQueue_stays handler.options.rpcType.endStreamAtFirstData
      ((({ handler.rpc with state := .requestHeadersSent }).emit .sendHEADERS).push
        [.sendInitialRequest])
    have hbefore := hstays.wasOpen hopen
    have hidle := mt (hstays.idle hopen).mp (by simp [Rpc.emit, Rpc.push])
    obtain ⟨hsome, hcarrier, hstream⟩ := hcarried ⟨hbefore.1, hbefore.2.1, by simpa using hended⟩
    have hnext : ({ handler with
        rpc := Rpc.processQueue handler.options.rpcType.endStreamAtFirstData
          ((({ handler.rpc with state := .requestHeadersSent }).emit .sendHEADERS).push
            [.sendInitialRequest])
        initialHeaders := [] } : ChannelHandler).CarriedBy channel.connection :=
      ⟨hsome, hcarrier, (hstays.stream hopen).trans hstream⟩
    exact ⟨fun _ => hnext, fun h => absurd h hidle, fun _ => ⟨hnext, hstate⟩, .inl hnext⟩

/-- Sending the request leaves no code of the channel's behind. -/
theorem sendInitialRequest_ownStack {handler : ChannelHandler} (sendHEADERS : Bool)
    (h : handler.rpc.OwnStack) : (handler.sendInitialRequest sendHEADERS).rpc.OwnStack := by
  unfold ChannelHandler.sendInitialRequest
  split
  · exact h
  rename_i hended
  cases sendHEADERS with
  | false =>
    simp only [Rpc.sendInitialRequest, hended, Bool.false_eq_true, not_false_eq_true, if_true,
      if_false]
    exact (Rpc.asyncFinish_stays _ _).stack h
  | true =>
    simp only [Rpc.sendInitialRequest, hended, Bool.false_eq_true, not_true_eq_false, if_false]
    apply (Rpc.processQueue_stays _ _).stack
    simpa [Rpc.OwnStack, Rpc.emit, Rpc.push] using h

/-- An RPC that is open when its request is sent was open before. -/
theorem sendInitialRequest_wasOpen {handler : ChannelHandler} (sendHEADERS : Bool)
    (hopen : (handler.sendInitialRequest sendHEADERS).rpc.Open) : handler.rpc.Open := by
  unfold ChannelHandler.sendInitialRequest at hopen
  split at hopen
  · exact hopen
  rename_i hended
  cases sendHEADERS with
  | false =>
    simp only [Rpc.sendInitialRequest, hended, Bool.false_eq_true, not_false_eq_true, if_true,
      if_false] at hopen
    exact (Rpc.asyncFinish_stays _ _).wasOpen hopen
  | true =>
    simp only [Rpc.sendInitialRequest, hended, Bool.false_eq_true, not_true_eq_false, if_false]
      at hopen
    obtain ⟨halive, hcontext, -⟩ := (Rpc.processQueue_stays _ _).wasOpen hopen
    exact ⟨halive, hcontext, by simpa using hended⟩

/-- Between its loops the channel handles no socket error. -/
theorem losing_of_loop {channel : Http2Channel} (hloop : channel.loop = none) :
    channel.losing = false := by
  rw [losing, hloop]

/-- Where a channel rests, no loop is under way. -/
theorem loop_of_quiescent {channel : Http2Channel} (h : channel.quiescent = true) :
    channel.loop = none := by
  simpa using (Bool.and_eq_true_iff.mp h).1

/-- A new channel is consistent. -/
theorem construct_consistent (connectTimeoutEnabled : Bool) :
    Consistent (construct connectTimeoutEnabled) where
  own := by simp [construct, attemptConnect]
  served := by simp [construct, attemptConnect]
  connection := by simp [construct, attemptConnect]
  socket := by simp [construct, attemptConnect]
  lost := by simp [construct, attemptConnect, losing]
  attempt := by simp [construct, attemptConnect, attemptPending]
  visited := by simp [construct, attemptConnect]
  unvisited := by simp [construct, attemptConnect]

/-- Without a connection no open handler has a stream, and all of them are untouched. -/
theorem Consistent.untouched {channel : Http2Channel} (h : Consistent channel)
    (hconnection : channel.connection = none) {handler : ChannelHandler}
    (hmem : handler ∈ channel.handlers) (hopen : handler.rpc.Open) :
    Untouched handler ∧ handler.rpc.stream.isSome = false := by
  have hserved := h.served handler hmem hopen
  have hcarried : ¬ handler.CarriedBy channel.connection := by
    rintro ⟨hsome, -⟩
    rw [hconnection] at hsome
    cases hsome
  refine ⟨hserved.untouched ?_, ?_⟩
  · by_contra hidle
    exact hcarried (hserved.sent hidle).1
  · exact eq_false_of_ne_true fun hstream => hcarried (hserved.carried hstream)

/-- A connected socket gives every handler that waits a stream. -/
theorem Consistent.createHttp2Connection {channel : Http2Channel} (h : Consistent channel)
    (hloop : channel.loop = none) (hsocket : channel.socket = .connecting)
    (streamError : Nat → Option String) :
    Consistent (({ channel with socket := .connected }).createHttp2Connection streamError) := by
  have hconnection : channel.connection = none := by
    have hsome := h.socket (losing_of_loop hloop)
    rw [hsocket] at hsome
    simpa using hsome
  have hlosing : losing (({ channel with socket := .connected }).createHttp2Connection
      streamError) = false := losing_of_loop hloop
  refine ⟨?_, ?_, ?_, ?_, ?_, ?_, ?_, ?_⟩
  · intro handler hmem
    obtain ⟨i, hi, rfl⟩ := List.mem_mapIdx.mp hmem
    have hown := h.own _ (List.getElem_mem hi)
    split
    · exact hown
    split
    · exact (Rpc.destroy_stays _).stack hown
    · cases streamError i with
      | none => exact hown
      | some error => exact (Rpc.asyncFinish_stays _ _).stack hown
  · intro handler hmem hopen
    obtain ⟨i, hi, rfl⟩ := List.mem_mapIdx.mp hmem
    split at hopen
    · rename_i halive
      exact absurd hopen.1 halive
    rename_i halive
    rw [if_neg halive]
    split at hopen
    · rw [Rpc.Open, Rpc.destroy_alive] at hopen
      cases hopen.1
    rename_i hcontext
    rw [if_neg hcontext]
    have hbefore : (channel.handlers[i]).rpc.Open := by
      cases herror : streamError i with
      | none =>
        rw [herror] at hopen
        exact hopen
      | some error =>
        rw [herror] at hopen
        exact (Rpc.asyncFinish_stays _ _).wasOpen hopen
    obtain ⟨huntouched, hstream⟩ := h.untouched hconnection (List.getElem_mem hi) hbefore
    exact huntouched.createHttp2Stream_served rfl hbefore.2.1 hstream (streamError i)
  · simp [Http2Channel.createHttp2Connection]
  · simp [Http2Channel.createHttp2Connection]
  · simp [hlosing]
  · simp [Http2Channel.createHttp2Connection]
  · simp [Http2Channel.createHttp2Connection, hloop]
  · simp [Http2Channel.createHttp2Connection, hloop]

/-- SETTINGS begin the loop that sends the requests. -/
theorem Consistent.settingsFrameReceived {channel : Http2Channel} (h : Consistent channel)
    (hloop : channel.loop = none) (hconnection : channel.connection.isSome = true)
    (hstate : channel.state ≠ .settingsReceived) :
    Consistent { channel with
      connectTimeoutTimer := false
      state := .settingsReceived
      loop := some (.settings channel.indices []) } where
  own := h.own
  served handler hmem hopen := by
    refine (h.served handler hmem hopen).of_channel rfl (fun _ => rfl) fun hnone => ?_
    rw [hnone] at hconnection
    cases hconnection
  connection := by simp [hconnection]
  socket _ := h.socket (losing_of_loop hloop)
  lost hlosing := by cases hlosing
  attempt hconnecting := by cases hconnecting
  visited := by simp
  unvisited remaining expired hsettings := by
    obtain ⟨rfl, rfl⟩ : channel.indices = remaining ∧ [] = expired := by simpa using hsettings
    refine ⟨rfl, List.nodup_range, fun i hi => ⟨List.mem_range.mp hi, ?_⟩⟩
    intro handler hhandler hopen
    exact (h.served handler (List.mem_of_getElem? hhandler) hopen).idle_of_state hstate

/-- A socket error begins its loop, if none is under way. -/
theorem Consistent.handleSocketError {channel : Http2Channel} (h : Consistent channel)
    (errorCode : String) : Consistent (channel.handleSocketError errorCode) where
  own := h.own
  served handler hmem hopen :=
    (h.served handler hmem hopen).of_channel rfl id fun _ _ => .inr rfl
  connection := h.connection
  socket hlosing := by cases hlosing
  lost _ := rfl
  attempt _ hlosing := by cases hlosing
  visited code existing remaining expired hloop := by
    obtain ⟨-, rfl, rfl, rfl⟩ : errorCode = code ∧ channel.handlers.length = existing ∧
        channel.indices = remaining ∧ [] = expired := by
      simpa [Http2Channel.handleSocketError] using hloop
    exact ⟨le_rfl, by simp [indices], fun i _ hi hvisited => absurd (List.mem_range.mpr hi) hvisited⟩
  unvisited remaining expired hloop := by simp [Http2Channel.handleSocketError] at hloop

/-- The timer of the connecting socket serves nobody. -/
theorem Consistent.stopConnectTimeout {channel : Http2Channel} (h : Consistent channel)
    (running : Bool) : Consistent { channel with connectTimeoutTimer := running } where
  own := h.own
  served handler hmem hopen := (h.served handler hmem hopen).of_channel rfl id fun _ => id
  connection := h.connection
  socket := h.socket
  lost := h.lost
  attempt := h.attempt
  visited := h.visited
  unvisited := h.unvisited

/-- The socket connects again. -/
theorem Consistent.attemptConnect {channel : Http2Channel} (h : Consistent channel)
    (hloop : channel.loop = none) :
    Consistent ({ channel with reconnectTimer := false }).attemptConnect := by
  have hsocket := h.socket (losing_of_loop hloop)
  have hpending (hnone : channel.connection = none) :
      ({ channel with reconnectTimer := false }).attemptConnect.attemptPending = true := by
    rw [hnone] at hsocket
    cases hbefore : channel.socket <;> simp_all [attemptPending, Http2Channel.attemptConnect]
  refine ⟨h.own, fun handler hmem hopen => ?_, h.connection, fun _ => ?_, ?_, fun hstate _ => ?_,
    ?_, h.unvisited⟩
  · exact (h.served handler hmem hopen).of_channel rfl id fun hnone _ => .inl (hpending hnone)
  · refine Iff.trans ?_ hsocket
    cases channel.socket <;> simp [Http2Channel.attemptConnect]
  · intro hlosing
    cases (losing_of_loop hloop).symm.trans hlosing
  · apply hpending
    have hsome := h.connection
    rw [show channel.state = .connecting from hstate] at hsome
    simpa using hsome
  · exact h.visited

/-- A handler joins the others. -/
theorem Consistent.append {channel : Http2Channel} (h : Consistent channel)
    {handler : ChannelHandler} (hown : handler.rpc.OwnStack)
    (hserved : handler.rpc.Open → Served channel handler) :
    Consistent { channel with handlers := channel.handlers ++ [handler] } where
  own other hmem := by
    rcases List.mem_append.mp hmem with hmem | hmem
    · exact h.own other hmem
    · rwa [List.mem_singleton.mp hmem]
  served other hmem hopen := by
    rcases List.mem_append.mp hmem with hmem | hmem
    · exact (h.served other hmem hopen).of_channel rfl id fun _ => id
    · obtain rfl := List.mem_singleton.mp hmem
      exact (hserved hopen).of_channel rfl id fun _ => id
  connection := h.connection
  socket := h.socket
  lost := h.lost
  attempt := h.attempt
  visited errorCode existing remaining expired hloop := by
    obtain ⟨hexisting, hexpired, hvisited⟩ := h.visited errorCode existing remaining expired hloop
    refine ⟨by simp; omega, hexpired, fun i other hi hremaining hother => ?_⟩
    rw [List.getElem?_append_left (by omega)] at hother
    exact hvisited i other hi hremaining hother
  unvisited remaining expired hloop := by
    obtain ⟨hstate, hnodup, hunvisited⟩ := h.unvisited remaining expired hloop
    refine ⟨hstate, hnodup, fun i hi => ?_⟩
    obtain ⟨hlength, hidle⟩ := hunvisited i hi
    refine ⟨by simp; omega, fun other hother => hidle other ?_⟩
    rwa [List.getElem?_append_left hlength] at hother

/-- In state `Error` the reconnect timer is started. -/
theorem Consistent.reconnect {channel : Http2Channel} (h : Consistent channel)
    (hstate : channel.state = .error) :
    Consistent { channel with reconnectTimer := true, state := .connecting } where
  own := h.own
  served handler hmem hopen := by
    refine (h.served handler hmem hopen).of_channel rfl (fun hreceived => ?_) fun _ _ => .inl ?_
    · rw [hstate] at hreceived
      cases hreceived
    · simp [attemptPending]
  connection := by
    have hsome := h.connection
    simpa [hstate] using hsome
  socket := h.socket
  lost := h.lost
  attempt _ _ := by simp [attemptPending]
  visited := h.visited
  unvisited remaining expired hloop := by
    have hreceived := (h.unvisited remaining expired hloop).1
    rw [hstate] at hreceived
    cases hreceived

/-- A handler that has just been constructed. -/
theorem constructed_untouched (request : StartRequest)
    (hopen : ((Rpc.fresh request.options).writeMessage request.options request.data
      request.compressed).Open) :
    Untouched
      { options := request.options
        initialHeaders := request.initialHeaders
        rpc := (Rpc.fresh request.options).writeMessage request.options request.data
          request.compressed } := by
  have hstays := Rpc.writeMessage_stays request.options (Rpc.fresh request.options) request.data
    request.compressed
  exact ⟨(hstays.idle hopen).mpr rfl, request.initialHeaders_ne_nil,
    hstays.intact hopen rfl ⟨rfl, by simp [Rpc.fresh]⟩⟩

/-- A started RPC is served. -/
theorem Consistent.processOperation {channel : Http2Channel} (h : Consistent channel)
    (request : StartRequest) : Consistent (channel.processOperation request) := by
  unfold Http2Channel.processOperation
  split
  · refine h.append (by simp [Rpc.fresh, Rpc.OwnStack]) fun hopen => ?_
    cases hopen.1
  extract_lets handler
  have hstays : Rpc.Stays (Rpc.fresh request.options) handler.rpc :=
    Rpc.writeMessage_stays _ _ _ _
  have hown : handler.rpc.OwnStack := hstays.stack (by simp [Rpc.fresh, Rpc.OwnStack])
  have huntouched : handler.rpc.Open → Untouched handler := constructed_untouched request
  split
  · rename_i connection error hconnection herror
    refine h.append ?_ fun hopen => ?_
    · exact (Rpc.asyncFinish_stays _ _).stack hown
    · have hbefore := (Rpc.asyncFinish_stays _ _).wasOpen hopen
      exact (huntouched hbefore).createHttp2Stream_served hconnection hbefore.2.1
        (hstays.stream hbefore) (some error)
  · rename_i hno
    cases hconnection : channel.connection with
    | none =>
      have hstate : channel.state ≠ .connected ∧ channel.state ≠ .settingsReceived := by
        have hsome := h.connection
        rw [hconnection] at hsome
        simpa using hsome
      simp only [hstate.2, if_false]
      have hserved (next : Http2Channel) (hnext : next.connection = none)
          (hpending : next.attemptPending = true ∨ next.losing = true)
          (hopen : handler.rpc.Open) : Served next handler := by
        refine (huntouched hopen).served (fun hstream => ?_) (.inr (.inr ⟨hnext, hpending⟩))
        cases (hstays.stream hopen).symm.trans hstream
      split
      · rename_i herror
        have happended := (h.reconnect herror).append hown
          (hserved _ hconnection (.inl (by simp [attemptPending])))
        simpa only [hconnection] using happended
      · rename_i herror
        have hconnecting : channel.state = .connecting := by
          cases hcase : channel.state <;> simp_all
        have hpending : channel.attemptPending = true ∨ channel.losing = true := by
          cases hlosing : channel.losing with
          | false => exact .inl (h.attempt hconnecting hlosing)
          | true => exact .inr rfl
        have happended := h.append hown (hserved channel hconnection hpending)
        simpa only [hconnection] using happended
    | some connection =>
      have hstate : channel.state ≠ .error := by
        have hsome := h.connection
        rintro herror
        simp [hconnection, herror] at hsome
      have hattached (hopen : handler.rpc.Open) :
          Served channel (handler.attachStream connection) :=
        (huntouched hopen).attachStream_served hconnection
      simp only [hstate, if_false]
      split
      · rename_i hreceived
        have happended := h.append
          (@sendInitialRequest_ownStack (handler.attachStream connection)
            request.sendHEADERS hown)
          (sendInitialRequest_served hreceived
            (fun _ => ⟨by simp [hconnection], hconnection.symm, rfl⟩) hattached request.sendHEADERS)
        simpa only [hconnection, hreceived] using happended
      · have happended := @Consistent.append _ h (handler.attachStream connection) hown hattached
        simpa only [hconnection] using happended

/-- One handler changes and stays closed if it was, and idle where a loop has not visited it. -/
theorem Consistent.set {channel : Http2Channel} (h : Consistent channel) {i : Nat}
    {before after : ChannelHandler} (hbefore : channel.handlers[i]? = some before)
    (hown : after.rpc.OwnStack) (hserved : after.rpc.Open → Served channel after)
    (hopen : after.rpc.Open → before.rpc.Open)
    (hidle : ∀ remaining expired, channel.loop = some (.settings remaining expired) →
      i ∈ remaining → after.rpc.Open → before.rpc.state = .idle → after.rpc.state = .idle) :
    Consistent { channel with handlers := channel.handlers.set i after } where
  own handler hmem := by
    rcases List.mem_or_eq_of_mem_set hmem with hmem | rfl
    · exact h.own handler hmem
    · exact hown
  served handler hmem hhandler := by
    rcases List.mem_or_eq_of_mem_set hmem with hmem | rfl
    · exact (h.served handler hmem hhandler).of_channel rfl id fun _ => id
    · exact (hserved hhandler).of_channel rfl id fun _ => id
  connection := h.connection
  socket := h.socket
  lost := h.lost
  attempt := h.attempt
  visited errorCode existing remaining expired hloop := by
    obtain ⟨hexisting, hexpired, hvisited⟩ := h.visited errorCode existing remaining expired hloop
    refine ⟨by simpa using hexisting, hexpired, fun j handler hj hremaining hhandler hafter => ?_⟩
    by_cases hij : i = j
    · subst hij
      obtain ⟨-, rfl⟩ := by simpa [List.getElem?_set] using hhandler
      exact hvisited i before hj hremaining hbefore (hopen hafter)
    · rw [List.getElem?_set_ne hij] at hhandler
      exact hvisited j handler hj hremaining hhandler hafter
  unvisited remaining expired hloop := by
    obtain ⟨hstate, hnodup, hunvisited⟩ := h.unvisited remaining expired hloop
    refine ⟨hstate, hnodup, fun j hj => ⟨by simpa using (hunvisited j hj).1, ?_⟩⟩
    intro handler hhandler hafter
    by_cases hij : i = j
    · subst hij
      obtain ⟨-, rfl⟩ := by simpa [List.getElem?_set] using hhandler
      exact hidle remaining expired hloop hj hafter
        ((hunvisited i hj).2 before hbefore (hopen hafter))
    · rw [List.getElem?_set_ne hij] at hhandler
      exact (hunvisited j hj).2 handler hhandler hafter

/-- An RPC that takes an input of its own stays served. -/
theorem Consistent.rpc {env : Environment} {channel : Http2Channel} (h : Consistent channel)
    {i : Nat} {handler : ChannelHandler} {input : Input} {rpc : Rpc}
    (hhandler : channel.handlers[i]? = some handler) (hinput : input.own = true)
    (hstep : Rpc.step env handler.options handler.rpc input = some rpc) :
    Consistent { channel with handlers := channel.handlers.set i { handler with rpc := rpc } } := by
  have hmem := List.mem_of_getElem? hhandler
  have hstays := Rpc.step_stays env handler.options handler.rpc rpc input hinput
    (h.own handler hmem) hstep
  exact h.set hhandler (hstays.stack (h.own handler hmem))
    (fun hopen => (h.served handler hmem (hstays.wasOpen hopen)).stays hstays hopen) hstays.wasOpen
    (fun _ _ _ _ hopen hidle => (hstays.idle hopen).mpr hidle)

/-- The loop of a socket error has dealt with one more handler. -/
theorem Consistent.advanceSocketError {channel : Http2Channel} (h : Consistent channel)
    {errorCode : String} {existing i : Nat} {remaining expired expired' : List Nat}
    (hloop : channel.loop = some (.socketError errorCode existing (i :: remaining) expired))
    (hexpired : ∀ j ∈ expired', j ∈ expired ∨ j = i)
    (hclosed : ∀ handler, channel.handlers[i]? = some handler → ¬ handler.rpc.Open) :
    Consistent { channel with
      loop := some (.socketError errorCode existing remaining expired') } where
  own := h.own
  served handler hmem hopen :=
    (h.served handler hmem hopen).of_channel rfl id fun _ _ => .inr rfl
  connection := h.connection
  socket hlosing := by cases hlosing
  lost _ := h.lost (by rw [losing, hloop])
  attempt _ hlosing := by cases hlosing
  visited code existing' remaining' expired'' hnext := by
    obtain ⟨-, rfl, rfl, rfl⟩ : errorCode = code ∧ existing = existing' ∧ remaining = remaining' ∧
        expired' = expired'' := by simpa using hnext
    obtain ⟨hexisting, hbound, hvisited⟩ := h.visited _ _ _ _ hloop
    refine ⟨hexisting, fun j hj => ?_, fun j handler hj hremaining hhandler => ?_⟩
    · apply hbound
      rcases List.mem_append.mp hj with hj | hj
      · simp [hj]
      · rcases hexpired j hj with hj | rfl <;> simp_all
    · by_cases hij : j = i
      · subst hij
        exact hclosed handler hhandler
      · exact hvisited j handler hj (by simp [hij, hremaining]) hhandler
  unvisited remaining' expired'' hnext := by simp at hnext

/-- The loop that sends the requests has dealt with one more handler. -/
theorem Consistent.advanceSettings {channel : Http2Channel} (h : Consistent channel) {i : Nat}
    {remaining expired : List Nat} (expired' : List Nat)
    (hloop : channel.loop = some (.settings (i :: remaining) expired)) :
    Consistent { channel with loop := some (.settings remaining expired') } where
  own := h.own
  served handler hmem hopen :=
    (h.served handler hmem hopen).of_channel rfl id fun _ => by simp [losing, hloop, attemptPending]
  connection := h.connection
  socket _ := h.socket (by rw [losing, hloop])
  lost hlosing := by cases hlosing
  attempt hstate _ := h.attempt hstate (by rw [losing, hloop])
  visited code existing' remaining' expired'' hnext := by simp at hnext
  unvisited remaining' expired'' hnext := by
    obtain ⟨rfl, rfl⟩ : remaining = remaining' ∧ expired' = expired'' := by simpa using hnext
    obtain ⟨hstate, hnodup, hunvisited⟩ := h.unvisited _ _ hloop
    exact ⟨hstate, hnodup.of_cons, fun j hj => hunvisited j (List.mem_cons_of_mem _ hj)⟩

/-- A handler that is still open after the deletion of the expired ones is not one of them. -/
theorem mem_deleteExpired {channel : Http2Channel} {expired : List Nat} {handler : ChannelHandler}
    (hmem : handler ∈ channel.deleteExpired expired) (hopen : handler.rpc.Open) :
    handler ∈ channel.handlers := by
  obtain ⟨i, hi, rfl⟩ := List.mem_mapIdx.mp hmem
  split at hopen
  · rw [Rpc.Open, Rpc.destroy_alive] at hopen
    cases hopen.1
  · rename_i hexpired
    rw [if_neg hexpired]
    exact List.getElem_mem hi

/-- The handlers that are left run no code of the channel's. -/
theorem Consistent.deleteExpired_ownStack {channel : Http2Channel} (h : Consistent channel)
    (expired : List Nat) {handler : ChannelHandler} (hmem : handler ∈ channel.deleteExpired expired) :
    handler.rpc.OwnStack := by
  obtain ⟨i, hi, rfl⟩ := List.mem_mapIdx.mp hmem
  have hown := h.own _ (List.getElem_mem hi)
  split
  · exact (Rpc.destroy_stays _).stack hown
  · exact hown

/-- Behind the loop that sends the requests every RPC is served. -/
theorem Consistent.endSettings {channel : Http2Channel} (h : Consistent channel)
    {expired : List Nat} (hloop : channel.loop = some (.settings [] expired)) :
    Consistent { channel with handlers := channel.deleteExpired expired, loop := none } where
  own _ hmem := h.deleteExpired_ownStack expired hmem
  served handler hmem hopen :=
    (h.served handler (mem_deleteExpired hmem hopen) hopen).of_channel rfl id fun _ => by
      simp [losing, hloop, attemptPending]
  connection := h.connection
  socket _ := h.socket (by rw [losing, hloop])
  lost hlosing := by cases hlosing
  attempt hstate _ := h.attempt hstate (by rw [losing, hloop])
  visited := by simp
  unvisited := by simp

/-- At the end of `handleSocketError` only handlers that came after its loop began are open. -/
theorem Consistent.mem_drop {channel : Http2Channel} (h : Consistent channel) {errorCode : String}
    {existing : Nat} {expired : List Nat}
    (hloop : channel.loop = some (.socketError errorCode existing [] expired))
    {handler : ChannelHandler} (hmem : handler ∈ channel.handlers) (hopen : handler.rpc.Open) :
    handler ∈ channel.handlers.drop existing := by
  obtain ⟨i, hi⟩ := List.mem_iff_getElem?.mp hmem
  obtain ⟨-, -, hvisited⟩ := h.visited errorCode existing [] expired hloop
  have hlate : existing ≤ i := by
    by_contra hearly
    exact hvisited i handler (by omega) (by simp) hi hopen
  refine List.mem_iff_getElem?.mpr ⟨i - existing, ?_⟩
  rw [List.getElem?_drop, Nat.add_sub_cancel' hlate]
  exact hi

/-- The loss of the connection strands nobody where it is settled. -/
theorem Consistent.connectionLost {channel : Http2Channel} (h : Consistent channel)
    {errorCode : String} {existing : Nat} {expired : List Nat}
    (hloop : channel.loop = some (.socketError errorCode existing [] expired))
    (hsettled : ∀ handler ∈ channel.handlers.drop existing, handler.rpc.Open →
      handler.rpc.state = .idle ∧ (handler.rpc.AsyncFinishes ∨ channel.reconnectTimer = true)) :
    Consistent (channel.connectionLost expired) where
  own handler hmem := by
    obtain ⟨before, hbefore, rfl⟩ := List.mem_map.mp hmem
    have hown := h.deleteExpired_ownStack expired hbefore
    simpa [ChannelHandler.dropStream, Rpc.OwnStack] using hown
  served handler hmem hopen := by
    obtain ⟨before, hbefore, rfl⟩ := List.mem_map.mp hmem
    have hstill := Rpc.dropStream_open.mp hopen
    have hmember := mem_deleteExpired hbefore hstill
    obtain ⟨hidle, hfinishes⟩ := hsettled before (h.mem_drop hloop hmember hstill) hstill
    obtain ⟨-, hstate, -, -, hpending, -⟩ := Rpc.dropStream_sameEnd before.rpc
    have huntouched := (h.served before hmember hstill).untouched hidle
    have hdropped : Untouched before.dropStream :=
      ⟨hstate.trans hidle, huntouched.headers, Rpc.dropStream_intact huntouched.intact⟩
    refine hdropped.served (fun hstream => ?_) (.inr ?_)
    · simp [ChannelHandler.dropStream] at hstream
    · rcases hfinishes with hasync | htimer
      · left
        rw [Rpc.AsyncFinishes, ChannelHandler.dropStream, hpending]
        exact hasync
      · exact .inr ⟨rfl, .inl (by simp [attemptPending, Http2Channel.connectionLost, htimer])⟩
  connection := by simp [Http2Channel.connectionLost]
  socket _ := by simp [Http2Channel.connectionLost, h.lost (by rw [losing, hloop])]
  lost hlosing := by cases hlosing
  attempt hstate _ := by cases hstate
  visited := by simp [Http2Channel.connectionLost]
  unvisited := by simp [Http2Channel.connectionLost]

/-- A loop that visits its next handler leaves the channel consistent. -/
theorem Consistent.visit {channel next : Http2Channel} (h : Consistent channel)
    {sendHEADERS : Bool} (hsettled : LossSettled channel (.visit sendHEADERS))
    (hvisit : channel.visit sendHEADERS = some next) : Consistent next := by
  unfold Http2Channel.visit at hvisit
  split at hvisit
  · cases hvisit
  · rename_i errorCode existing i remaining expired hloop
    obtain ⟨handler, hhandler, rfl⟩ := Option.map_eq_some_iff.mp hvisit
    have honly {other : ChannelHandler} (hother : channel.handlers[i]? = some other) :
        other = handler := by
      rw [hhandler] at hother
      exact (Option.some.inj hother).symm
    split
    · rename_i halive
      refine h.advanceSocketError hloop (fun _ => .inl) fun other hother hopen => ?_
      exact halive (honly hother ▸ hopen.1)
    split
    · rename_i hcontext
      refine h.advanceSocketError hloop (fun j hj => ?_) fun other hother hopen => ?_
      · simpa using hj
      · exact hcontext (honly hother ▸ hopen.2.1)
    · have hmem := List.mem_of_getElem? hhandler
      have hclosed := Rpc.finish_closed handler.rpc
        ⟨.unavailable, "Network error occurred: " ++ errorCode⟩
      have hfinished := @Consistent.set _ h i handler { handler with
          rpc := handler.rpc.finish ⟨.unavailable, "Network error occurred: " ++ errorCode⟩ }
        hhandler (Rpc.finish_ownStack _ (h.own handler hmem)) (fun hopen => absurd hopen hclosed)
        (fun hopen => absurd hopen hclosed) (fun _ _ _ _ hopen => absurd hopen hclosed)
      refine hfinished.advanceSocketError hloop (fun _ => .inl) fun other hother => ?_
      obtain ⟨-, rfl⟩ := by simpa [List.getElem?_set] using hother
      exact hclosed
  · rename_i errorCode existing expired hloop
    cases hvisit
    exact h.connectionLost hloop (hsettled sendHEADERS errorCode existing expired rfl hloop)
  · rename_i i remaining expired hloop
    split at hvisit
    · cases hvisit
    rename_i handler hhandler
    split at hvisit
    · cases hvisit
      exact h.advanceSettings expired hloop
    split at hvisit
    · cases hvisit
      exact h.advanceSettings (expired ++ [i]) hloop
    split at hvisit
    · cases hvisit
    rename_i halive hcontext hstream
    cases hvisit
    have hmem := List.mem_of_getElem? hhandler
    obtain ⟨hstate, hnodup, -⟩ := h.unvisited _ _ hloop
    have hadvanced := h.advanceSettings expired hloop
    have hserved (hopen : handler.rpc.Open) := hadvanced.served handler hmem hopen
    have hcarried (hopen : handler.rpc.Open) : handler.CarriedBy channel.connection := by
      refine (hserved hopen).carried ?_
      simpa [hopen.2.2, Option.isSome_iff_ne_none] using hstream
    have hsent := @sendInitialRequest_served
      { channel with loop := some (.settings remaining expired) } _ hstate hcarried
      hserved sendHEADERS
    refine hadvanced.set hhandler (sendInitialRequest_ownStack sendHEADERS (h.own handler hmem))
      hsent (sendInitialRequest_wasOpen sendHEADERS) fun remaining' expired' hnext hi => ?_
    obtain ⟨rfl, rfl⟩ : remaining = remaining' ∧ expired = expired' := by simpa using hnext
    exact absurd hi (List.nodup_cons.mp hnodup).1
  · rename_i expired hloop
    cases hvisit
    exact h.endSettings hloop

/-- So does every event, where the loss of the connection is settled. -/
theorem step_consistent {env : Environment} {channel next : Http2Channel} {event : ChannelEvent}
    (h : Consistent channel) (hsettled : LossSettled channel event)
    (hstep : step env channel event = some next) : Consistent next := by
  cases event <;> simp only [step] at hstep
  case connected streamError =>
    split at hstep <;> cases hstep
    rename_i hready
    exact h.createHttp2Connection (loop_of_quiescent hready.1) hready.2 streamError
  case settingsFrameReceived =>
    split at hstep
    · rename_i hready
      split at hstep <;> cases hstep
      · exact h
      · rename_i hstate
        exact h.settingsFrameReceived (loop_of_quiescent hready.1) hready.2 hstate
    · cases hstep
  case socketError errorCode =>
    split at hstep <;> cases hstep
    exact h.handleSocketError errorCode
  case connectTimeout =>
    split at hstep <;> cases hstep
    exact (h.stopConnectTimeout false).handleSocketError "ConnectTimeout"
  case reconnectTimeout =>
    split at hstep <;> cases hstep
    rename_i hready
    exact h.attemptConnect (loop_of_quiescent hready.1)
  case start request =>
    split at hstep <;> cases hstep
    exact h.processOperation request
  case visit sendHEADERS =>
    split at hstep
    · exact h.visit hsettled hstep
    · cases hstep
  case rpc index input =>
    split at hstep
    · cases hstep
    rename_i handler hhandler
    split at hstep
    · rename_i hmay
      obtain ⟨rpc, hrpc, rfl⟩ := Option.map_eq_some_iff.mp hstep
      exact h.rpc hhandler (Bool.and_eq_true_iff.mp hmay).1 hrpc
    · cases hstep

/-- In a consistent channel that rests nobody is stranded. -/
theorem Consistent.nobodyStranded {channel : Http2Channel} (h : Consistent channel)
    (hquiescent : channel.quiescent = true) : NobodyStranded channel := by
  intro handler hmem hopen
  have hserved := h.served handler hmem hopen
  have hlosing : channel.losing = false := by
    have hloop : channel.loop = none := by
      simpa using (Bool.and_eq_true_iff.mp hquiescent).1
    rw [losing, hloop]
  refine ⟨fun hidle => (hserved.sent hidle).1, ?_⟩
  rcases hserved.served with hcarried | hasync | ⟨hidle, -, hattempt⟩
  · exact .inl hcarried
  · exact .inr (.inl hasync)
  · obtain ⟨hheaders, hintact⟩ := hserved.idle hidle
    exact .inr (.inr ⟨hidle, hheaders, hintact.1, by simpa [hlosing] using hattempt⟩)

/-- And a request that is to be sent next has not been sent. -/
theorem Consistent.visitsIdle {channel : Http2Channel} (h : Consistent channel) :
    VisitsIdle channel := by
  intro i remaining expired handler hloop hhandler hopen
  have hidle := ((h.unvisited _ _ hloop).2.2 i List.mem_cons_self).2 handler hhandler hopen
  exact ⟨hidle, ((h.served handler (List.mem_of_getElem? hhandler) hopen).idle hidle).1⟩

/-- An unsettled loss leaves somebody behind. -/
theorem Consistent.stranded {env : Environment} {channel next : Http2Channel}
    {event : ChannelEvent} (h : Consistent channel) (hunsettled : ¬ LossSettled channel event)
    (hstep : step env channel event = some next) :
    next.quiescent = true ∧ ¬ NobodyStranded next := by
  unfold LossSettled at hunsettled
  push Not at hunsettled
  obtain ⟨sendHEADERS, errorCode, existing, expired, rfl, hloop, handler, hmem, hopen, hlost⟩ :=
    hunsettled
  simp only [step, Http2Channel.visit, hloop] at hstep
  split at hstep
  swap
  · cases hstep
  rename_i hstacks
  cases hstep
  obtain ⟨-, hexpired, -⟩ := h.visited errorCode existing [] expired hloop
  obtain ⟨i, hi⟩ := List.mem_iff_getElem?.mp hmem
  rw [List.getElem?_drop] at hi
  have hkept : existing + i ∉ expired := fun hin => by
    have hearly := hexpired _ (List.mem_append_right _ hin)
    omega
  have hdropped : handler.dropStream ∈ (channel.connectionLost expired).handlers := by
    refine List.mem_map_of_mem (List.mem_iff_getElem?.mpr ⟨existing + i, ?_⟩)
    simp [deleteExpired, hi, hkept]
  refine ⟨?_, fun hstranded => ?_⟩
  · refine Bool.and_eq_true_iff.mpr ⟨rfl, List.all_eq_true.mpr fun after hafter => ?_⟩
    obtain ⟨before, hbefore, rfl⟩ := List.mem_map.mp hafter
    obtain ⟨j, hj, rfl⟩ := List.mem_mapIdx.mp hbefore
    have hempty := List.all_eq_true.mp hstacks _ (List.getElem_mem hj)
    split <;> simpa [ChannelHandler.dropStream, Rpc.destroy] using hempty
  · obtain ⟨hcarried, hserved⟩ := hstranded _ hdropped (Rpc.dropStream_open.mpr hopen)
    obtain ⟨-, hstate, -, -, hpending, -⟩ := Rpc.dropStream_sameEnd handler.rpc
    have hlosing := h.lost (by rw [losing, hloop])
    have hidle : handler.rpc.state = .idle := by
      by_contra hne
      cases (hcarried (by rwa [ChannelHandler.dropStream, hstate])).1
    obtain ⟨hasync, htimer⟩ := hlost hidle
    rcases hserved with hcarried | hfinishes | ⟨-, -, -, hattempt⟩
    · cases hcarried.1
    · rw [Rpc.AsyncFinishes, ChannelHandler.dropStream, hpending] at hfinishes
      exact hasync hfinishes
    · simp only [attemptPending, Http2Channel.connectionLost, hlosing] at hattempt
      exact htimer (by simpa using hattempt)

end Http2Channel

open Http2Channel Transition

/-- In every run of a channel nobody is stranded after an event and every request about to be sent
is idle, if and only if every RPC that a slot starts from inside `handleSocketError` is settled
when the connection is dropped. -/
theorem nobodyStranded_iff (env : Environment) (connectTimeoutEnabled : Bool)
    (events : List ChannelEvent) (final : Http2Channel)
    (hrun : run (Http2Channel.step env) (construct connectTimeoutEnabled) events = some final) :
    (∀ before after reached, events = before ++ after →
      run (Http2Channel.step env) (construct connectTimeoutEnabled) before = some reached →
      (reached.quiescent = true → NobodyStranded reached) ∧ VisitsIdle reached) ↔
    Along (Http2Channel.step env) LossSettled (construct connectTimeoutEnabled) events := by
  constructor
  · refine along_of_reached (Http2Channel.step env) LossSettled Consistent _
      (fun _ _ _ => step_consistent) (fun channel event next h hunsettled hstep hgood => ?_)
      _ final events (construct_consistent connectTimeoutEnabled) hrun
    obtain ⟨hquiescent, hstranded⟩ := h.stranded hunsettled hstep
    exact hstranded (hgood.1 hquiescent)
  · rintro halong before after reached rfl hreached
    have hconsistent := run_invariant_along (Http2Channel.step env) LossSettled Consistent
      (fun _ _ _ => step_consistent) _ reached before (construct_consistent connectTimeoutEnabled)
      (along_of_append _ _ _ before after halong) hreached
    exact ⟨hconsistent.nobodyStranded, hconsistent.visitsIdle⟩

/-- A bidirectional stream that starts with an empty message. -/
def bidiRequest : StartRequest where
  options := bidiOptions
  initialHeaders := [([58, 109, 101, 116, 104, 111, 100], [80, 79, 83, 84])]
  initialHeaders_ne_nil := by simp
  data := []
  compressed := none

/-- The slot connected to `finished` of the first RPC starts it again. -/
def retriedFromFinished : List ChannelEvent :=
  [.start bidiRequest, .socketError "ConnectionRefusedError", .visit true, .start bidiRequest,
    .rpc 0 .slotReturned, .rpc 0 (.resume []), .visit true]

/-- The retry is idle and unfinished, and nothing is going to connect the channel. -/
theorem not_nobodyStranded_retriedFromFinished :
    ∃ final, run (Http2Channel.step plainEnvironment) (construct true) retriedFromFinished =
        some final ∧ final.quiescent = true ∧ ¬ NobodyStranded final := by
  have hfinal : (run (Http2Channel.step plainEnvironment) (construct true) retriedFromFinished).any
      (fun final => final.quiescent && final.connection.isNone && !final.attemptPending &&
        final.handlers.any fun handler => handler.rpc.Open ∧ ¬ handler.rpc.AsyncFinishes) = true := by
    decide
  obtain ⟨final, hrun⟩ : ∃ final, run (Http2Channel.step plainEnvironment) (construct true)
      retriedFromFinished = some final := Option.isSome_iff_exists.mp (by decide)
  rw [hrun, Option.any_some] at hfinal
  simp only [Bool.and_eq_true, Option.isNone_iff_eq_none, Bool.not_eq_true', List.any_eq_true,
    decide_eq_true_eq] at hfinal
  obtain ⟨⟨⟨hquiescent, hconnection⟩, hattempt⟩, handler, hmem, hopen, hasync⟩ := hfinal
  refine ⟨final, hrun, hquiescent, fun hstranded => ?_⟩
  rcases (hstranded handler hmem hopen).2 with hcarried | hfinishes | ⟨-, -, -, hpending⟩
  · simp [ChannelHandler.CarriedBy, hconnection] at hcarried
  · exact hasync hfinishes
  · simp [hattempt] at hpending

/-- The retry comes from the event loop, after the connection has been dropped. -/
def retriedFromEventLoop : List ChannelEvent :=
  [.start bidiRequest, .socketError "ConnectionRefusedError", .visit true, .rpc 0 .slotReturned,
    .rpc 0 (.resume []), .visit true, .start bidiRequest, .reconnectTimeout,
    .connected fun _ => none, .settingsFrameReceived, .visit true]

/-- The retry waits for the connection that its start begins. -/
theorem nobodyStranded_iff_retriedFromEventLoop :
    ∃ final, run (Http2Channel.step plainEnvironment) (construct true) retriedFromEventLoop =
        some final ∧
      ∀ before after reached, retriedFromEventLoop = before ++ after →
        run (Http2Channel.step plainEnvironment) (construct true) before = some reached →
        (reached.quiescent = true → NobodyStranded reached) ∧ VisitsIdle reached := by
  obtain ⟨final, hrun⟩ := Option.isSome_iff_exists.mp
    (show (run (Http2Channel.step plainEnvironment) (construct true)
      retriedFromEventLoop).isSome = true by decide)
  exact ⟨final, hrun,
    (nobodyStranded_iff plainEnvironment true retriedFromEventLoop final hrun).mpr (by decide)⟩

end QtGrpc.Http2
