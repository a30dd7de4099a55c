import QtGrpc.Http2.Run

/-!
# What one step signals

Every step records some transport events and then at most one signal to the user. The effect
of each handler function is stated once in this form, so that the properties of whole runs
need no second look at the code.
-/

namespace QtGrpc.Http2

/-- The signals of the operation. -/
def Event.signalled : Event → Bool
  | .finished _ | .messageReceived _ | .messageWritten | .serverInitialMetadataReceived _ => true
  | _ => false

/-- The signal that ends the operation. -/
def Event.isFinished : Event → Bool
  | .finished _ => true
  | _ => false

/-- The events that neither reach the user nor are the trailers of the response. -/
def Event.transport : Event → Bool
  | .headers phase _ => phase = .initial
  | e => !e.signalled

/-- The events of the transport are no signals. -/
theorem Event.signalled_of_transport {e : Event} (h : e.transport = true) :
    e.signalled = false := by
  cases e <;> first | rfl | simp_all [Event.transport, Event.signalled]

/-- The last event of a trace is a given earlier event or lies behind it. -/
theorem concat_eq_append_cons {l before after : List Event} {x y : Event}
    (h : l ++ [x] = before ++ y :: after) :
    (after = [] ∧ l = before ∧ x = y) ∨ ∃ rest, after = rest ++ [x] ∧ l = before ++ y :: rest := by
  rcases List.eq_nil_or_concat after with rfl | ⟨rest, z, rfl⟩
  · exact .inl ⟨rfl, List.append_singleton_inj.mp h⟩
  · rw [List.concat_eq_append, ← List.cons_append, ← List.append_assoc,
      List.append_singleton_inj] at h
    exact .inr ⟨rest, by rw [List.concat_eq_append, h.2], h.1⟩

/-- Trailers of either kind that announce success. -/
def AnnouncesOk (env : Environment) (trace : List Event) : Prop :=
  ∃ phase headers, .headers phase headers ∈ trace ∧ phase ≠ .initial ∧
    grpcStatus env headers = some .ok

namespace Rpc

/-- Transport events only; the operation does not finish. -/
def Quiet (rpc next : Rpc) : Prop :=
  ∃ quiet : List Event, next.trace = rpc.trace ++ quiet ∧
    (∀ e ∈ quiet, e.transport = true) ∧ next.operationFinished = rpc.operationFinished

/-- Events without a signal, among them trailers only where the RPC finishes, and then one
signal that the predicate admits behind them. -/
def Signals (admits : List Event → Event → Prop) (rpc next : Rpc) : Prop :=
  ∃ (quiet : List Event) (e : Event), next.trace = rpc.trace ++ quiet ++ [e] ∧
    (∀ e' ∈ quiet, e'.signalled = false ∧ (e'.transport = true ∨ e.isFinished = true)) ∧
    e.signalled = true ∧ admits quiet e ∧
    next.operationFinished = (rpc.operationFinished || e.isFinished)

/-- At most one admitted signal, behind transport events. -/
def Effect (admits : List Event → Event → Prop) (rpc next : Rpc) : Prop :=
  Quiet rpc next ∨ Signals admits rpc next

/-- Where nothing is recorded, nothing is signalled. -/
theorem Quiet.refl (rpc : Rpc) : Quiet rpc rpc := ⟨[], by simp⟩

/-- A step that records nothing signals nothing. -/
theorem Quiet.of_eq {rpc next : Rpc} (htrace : next.trace = rpc.trace)
    (hfinished : next.operationFinished = rpc.operationFinished) : Quiet rpc next :=
  ⟨[], by simp [htrace, hfinished]⟩

/-- Two steps without a signal are one. -/
theorem Quiet.trans {a b c : Rpc} (hab : Quiet a b) (hbc : Quiet b c) : Quiet a c := by
  obtain ⟨xs, hx, hxq, hxf⟩ := hab
  obtain ⟨ys, hy, hyq, hyf⟩ := hbc
  refine ⟨xs ++ ys, by rw [hy, hx, List.append_assoc], fun e he => ?_, hyf.trans hxf⟩
  exact (List.mem_append.mp he).elim (hxq e) (hyq e)

/-- Transport events before a step are transport events of the composed step. -/
theorem Quiet.effect {a b c : Rpc} {admits : List Event → Event → Prop} (hab : Quiet a b)
    (hbc : Effect (fun quiet e => ∀ before, admits (before ++ quiet) e) b c) :
    Effect admits a c := by
  rcases hbc with h | ⟨ys, e, hy, hyq, he, hadmits, hyf⟩
  · exact .inl (hab.trans h)
  obtain ⟨xs, hx, hxq, hxf⟩ := hab
  refine .inr ⟨xs ++ ys, e, by rw [hy, hx]; simp, fun e' he' => ?_, he, hadmits xs,
    by rw [hyf, hxf]⟩
  exact (List.mem_append.mp he').elim (fun h => ⟨Event.signalled_of_transport (hxq e' h), .inl (hxq e' h)⟩) (hyq e')

/-- What a predicate admits, a weaker one admits. -/
theorem Effect.mono {a b : Rpc} {admits weaker : List Event → Event → Prop}
    (h : Effect admits a b) (himp : ∀ quiet e, admits quiet e → weaker quiet e) :
    Effect weaker a b := by
  rcases h with h | ⟨quiet, e, htrace, hquiet, he, hadmits, hfinished⟩
  · exact .inl h
  · exact .inr ⟨quiet, e, htrace, hquiet, he, himp quiet e hadmits, hfinished⟩

/-- Recording one more transport event. -/
theorem Quiet.emit {rpc next : Rpc} {e : Event} (h : Quiet rpc next) (he : e.transport = true) :
    Quiet rpc (next.emit e) :=
  h.trans ⟨[e], by simp [Rpc.emit, he]⟩

/-- Code that is yet to run signals nothing. -/
theorem Quiet.push {rpc next : Rpc} (h : Quiet rpc next) (code : List Continuation) :
    Quiet rpc (next.push code) := h.trans (.of_eq rfl rfl)

/-- The finishing signal is only forwarded to an unfinished operation. -/
def FinishesWith (rpc : Rpc) (status : QGrpcStatus) (_ : List Event) (e : Event) : Prop :=
  rpc.operationFinished = false ∧ e = .finished status

/-- The operation finishes with the status, unless it has finished. -/
theorem contextFinished_effect (rpc : Rpc) (status : QGrpcStatus) (after : List Continuation) :
    Effect (FinishesWith rpc status) rpc (rpc.contextFinished status after) := by
  unfold contextFinished
  split
  · exact .inl (Quiet.of_eq rfl rfl)
  · rename_i h
    refine .inr ⟨[], .finished status, ?_⟩
    simp_all [emit, push, Event.signalled, Event.isFinished, FinishesWith]

/-- The handler finishes the operation with the status, or does nothing. -/
theorem finish_effect (rpc : Rpc) (status : QGrpcStatus) :
    Effect (FinishesWith rpc status) rpc (rpc.finish status) := by
  unfold finish
  split
  · exact .inl (Quiet.of_eq rfl rfl)
  · split
    · exact .inl (Quiet.refl rpc)
    · refine Quiet.effect ?_ ((contextFinished_effect _ status _).mono fun _ _ h _ => h)
      exact .of_eq rfl rfl

/-- What is finished later is not signalled yet. -/
theorem asyncFinish_quiet (rpc : Rpc) (status : QGrpcStatus) :
    Quiet rpc (rpc.asyncFinish status) := by
  unfold asyncFinish
  split <;> exact Quiet.of_eq rfl rfl

/-- A cancelled handler finishes the operation with the status, or does nothing. -/
theorem cancelWithStatus_effect (rpc : Rpc) (status : QGrpcStatus) :
    Effect (FinishesWith rpc status) rpc (rpc.cancelWithStatus status) := by
  unfold cancelWithStatus
  split
  · exact .inl (Quiet.refl rpc)
  · have hcancelled : Quiet rpc { rpc with state := .cancelled } := Quiet.of_eq rfl rfl
    dsimp only
    split
    · split
      · exact hcancelled.effect ((finish_effect _ status).mono fun _ _ h _ => h)
      · exact (hcancelled.emit (e := .sendRST_STREAM) rfl).effect
          ((finish_effect _ status).mono fun _ _ h _ => h)
    · exact hcancelled.effect ((finish_effect _ status).mono fun _ _ h _ => h)

/-- Handing the next message to the stream signals nothing. -/
theorem sendNext_quiet (endStreamAtFirstData : Bool) (rpc : Rpc) :
    Quiet rpc (rpc.sendNext endStreamAtFirstData) := by
  unfold sendNext
  split
  · exact Quiet.refl rpc
  · exact Quiet.push (Quiet.emit (Quiet.of_eq rfl rfl) rfl) _

/-- Nor does the work on the queue. -/
theorem processQueue_quiet (endStreamAtFirstData : Bool) (rpc : Rpc) :
    Quiet rpc (rpc.processQueue endStreamAtFirstData) := by
  unfold processQueue
  split
  · exact Quiet.refl rpc
  · split
    · exact Quiet.refl rpc
    · split
      · exact Quiet.refl rpc
      · split
        · exact Quiet.refl rpc
        · refine Quiet.trans ?_ (sendNext_quiet _ _)
          exact .of_eq rfl rfl

/-- Behind a step without a signal the work on the queue adds none. -/
theorem Quiet.processQueue {rpc next : Rpc} {endStreamAtFirstData : Bool} (h : Quiet rpc next) :
    Quiet rpc (next.processQueue endStreamAtFirstData) := h.trans (processQueue_quiet _ _)

/-- A status that is not a success finished an unfinished operation. -/
def Fails (rpc : Rpc) (_ : List Event) (e : Event) : Prop :=
  rpc.operationFinished = false ∧ ∃ status : QGrpcStatus, status.code ≠ .ok ∧ e = .finished status

/-- With a code other than `Ok` the operation fails. -/
theorem FinishesWith.fails {rpc : Rpc} {status : QGrpcStatus} (h : status.code ≠ .ok)
    (quiet : List Event) (e : Event) (hfinishes : FinishesWith rpc status quiet e) :
    Fails rpc quiet e := ⟨hfinishes.1, status, h, hfinishes.2⟩

/-- Writing a message signals nothing unless the message is too long, which fails the operation. -/
theorem writeMessage_effect (options : HandlerOptions) (rpc : Rpc) (data : Bytes)
    (compressed : Option Bytes) :
    Effect (Fails rpc) rpc (rpc.writeMessage options data compressed) := by
  unfold writeMessage
  split
  · exact .inl (Quiet.refl rpc)
  · split
    · exact (finish_effect rpc _).mono (FinishesWith.fails (by simp))
    · exact .inl (Quiet.processQueue (Quiet.emit (Quiet.of_eq rfl rfl) rfl))

/-- Closing the request signals nothing. -/
theorem writesDone_quiet (options : HandlerOptions) (rpc : Rpc) :
    Quiet rpc (rpc.writesDone options) := by
  unfold writesDone
  split
  · exact Quiet.refl rpc
  · dsimp only
    split
    · exact Quiet.of_eq rfl rfl
    · exact Quiet.processQueue (Quiet.emit (Quiet.of_eq rfl rfl) rfl)

/-- Sending the request signals nothing. -/
theorem sendInitialRequest_quiet (options : HandlerOptions) (rpc : Rpc) (sendHEADERS : Bool) :
    Quiet rpc (rpc.sendInitialRequest options sendHEADERS) := by
  unfold sendInitialRequest
  split
  · exact Quiet.refl rpc
  · split
    · exact asyncFinish_quiet rpc _
    · exact Quiet.processQueue (Quiet.push (Quiet.emit (Quiet.of_eq rfl rfl) rfl) _)

/-- Losing the stream signals nothing. -/
theorem dropStream_quiet (rpc : Rpc) : Quiet rpc rpc.dropStream := by
  unfold dropStream
  split
  · split
    · exact Quiet.emit (Quiet.of_eq rfl rfl) rfl
    · exact Quiet.of_eq rfl rfl
  · exact Quiet.refl rpc

/-- Nor does the end of the operation object. -/
theorem destroy_quiet (rpc : Rpc) : Quiet rpc rpc.destroy := by
  refine Quiet.trans ?_ (dropStream_quiet _)
  exact .of_eq rfl rfl

/-- The end of an upload signals nothing at once. -/
theorem uploadFinished_quiet (options : HandlerOptions) (rpc : Rpc) :
    Quiet rpc (rpc.uploadFinished options) := by
  unfold uploadFinished
  extract_lets scheduled
  have hscheduled : Quiet rpc scheduled := by
    unfold scheduled
    split <;> exact Quiet.of_eq rfl rfl
  split
  · exact hscheduled
  · exact hscheduled.processQueue

/-- The step takes a complete frame from the buffer and hands its payload to the user. -/
def deliversFrame (options : HandlerOptions) (rpc : Rpc) : Input → Bool
  | .resume reads =>
    match rpc.stack, rpc.grpcDataParser.parseNextFrame with
    | .dataReceived _ :: _, (.ok frame, _) =>
      options.rpcType.signalsMessageReceived && (rpc.framePayload frame reads).isOk
    | _, _ => false
  | _ => false

/-- The step ends an unfinished RPC because its last data chunk left nothing buffered. -/
def finishesOnEndStream (rpc : Rpc) : Input → Bool
  | .resume _ =>
    match rpc.stack, rpc.grpcDataParser.parseNextFrame with
    | .dataReceived true :: _, (.error .needMoreData, parser) =>
      parser.bytesAvailable = 0 ∧ rpc.context ∧ rpc.state ≠ .finished ∧ ¬ rpc.operationFinished
    | _, _ => false
  | _ => false

/-- The signals a step may give, and what each of them needs. -/
def Admits (env : Environment) (options : HandlerOptions) (rpc : Rpc) (input : Input)
    (quiet : List Event) : Event → Prop
  | .finished status => rpc.operationFinished = false ∧
      (status.code = .ok → AnnouncesOk env quiet ∨ rpc.finishesOnEndStream input = true)
  | .messageReceived _ => rpc.deliversFrame options input = true
  | _ => rpc.operationFinished = false

/-- A finished operation has an ended handler, or one that is about to be cancelled; the event
loop holds no success, and finishes the operation itself only where there is no handler. -/
structure Tracked (rpc : Rpc) : Prop where
  ended : rpc.operationFinished = true → rpc.state.ended = true ∨ .cancelRequested ∈ rpc.stack ∨
    rpc.alive = false ∨ rpc.context = false
  pending : ∀ status : QGrpcStatus, .asyncFinish status ∈ rpc.pending ∨
    .contextFinished status ∈ rpc.pending → status.code ≠ .ok
  turnedDown : ∀ status : QGrpcStatus, .contextFinished status ∈ rpc.pending → rpc.alive = false

section

variable (env : Environment) (options : HandlerOptions)

/-- Every input admits that the operation fails. -/
theorem Fails.admits {rpc earlier : Rpc} {input : Input} {quiet : List Event} {e : Event}
    (hfinished : rpc.operationFinished = earlier.operationFinished) (h : Fails rpc quiet e) :
    Admits env options earlier input quiet e := by
  obtain ⟨hrpc, status, hstatus, rfl⟩ := h
  exact ⟨by rw [← hfinished, hrpc], fun hok => absurd hok hstatus⟩

/-- A failing end of the RPC behind transport events is admitted by every step. -/
theorem Quiet.fails {rpc mid next : Rpc} {input : Input} (hquiet : Quiet rpc mid)
    (h : Effect (Fails mid) mid next) : Effect (Admits env options rpc input) rpc next := by
  have hfinished : mid.operationFinished = rpc.operationFinished := hquiet.choose_spec.2.2
  exact hquiet.effect (h.mono fun _ _ hfails _ => hfails.admits env options hfinished)

/-- Finishing with a code other than `Ok` is a failure. -/
theorem finish_fails (rpc : Rpc) (status : QGrpcStatus) (h : status.code ≠ .ok) :
    Effect (Fails rpc) rpc (rpc.finish status) :=
  (finish_effect rpc status).mono (FinishesWith.fails h)

/-- So is cancelling with one. -/
theorem cancelWithStatus_fails (rpc : Rpc) (status : QGrpcStatus) (h : status.code ≠ .ok) :
    Effect (Fails rpc) rpc (rpc.cancelWithStatus status) :=
  (cancelWithStatus_effect rpc status).mono (FinishesWith.fails h)

/-- And so is a context that finishes with one. -/
theorem contextFinished_fails (rpc : Rpc) (status : QGrpcStatus) (after : List Continuation)
    (h : status.code ≠ .ok) : Effect (Fails rpc) rpc (rpc.contextFinished status after) :=
  (contextFinished_effect rpc status after).mono (FinishesWith.fails h)

/-- A header block signals initial metadata, fails the RPC, or ends it as the trailers say. -/
theorem headersReceived_effect (rpc : Rpc) (headers : HttpHeader) (endStream : Bool)
    (input : Input) (htracked : Tracked rpc) (hstack : rpc.stack = []) (halive : rpc.alive = true) :
    Effect (Admits env options rpc input) rpc
      (rpc.headersReceived env options headers endStream) := by
  unfold headersReceived
  split
  · exact .inl (Quiet.of_eq rfl rfl)
  rename_i hended
  split
  · exact .inl (Quiet.refl rpc)
  rename_i phase hphase
  dsimp only
  split
  · exact .inl (Quiet.of_eq rfl rfl)
  rename_i hcontext
  have hunfinished : rpc.operationFinished = false := by
    by_contra h
    have hended := htracked.ended
    simp_all
  have hfinish (handled : Rpc) (status : QGrpcStatus)
      (htrace : handled.trace = rpc.trace ++ [.headers phase headers])
      (hop : handled.operationFinished = false) (hcontext : handled.context = true)
      (hstate : handled.state = .active)
      (hstatus : status.code = .ok → phase ≠ .initial ∧ grpcStatus env headers = some .ok) :
      Effect (Admits env options rpc input) rpc (handled.finish status) := by
    refine .inr ⟨[.headers phase headers], .finished status, ?_, ?_, rfl,
      ⟨hunfinished, fun hok => .inl ⟨phase, headers, by simp, hstatus hok⟩⟩, ?_⟩
    · simp [finish, contextFinished, hcontext, hstate, hop, emit, push, htrace]
    · simp [Event.signalled, Event.isFinished]
    · simp [finish, contextFinished, hcontext, hstate, hop, emit, push, Event.isFinished]
  have hopen : rpc.context = true := by simpa using hcontext
  split
  · rename_i status houtcome
    refine hfinish _ status rfl hunfinished hopen rfl fun hok => ?_
    exact absurd hok (handleHeaders_finish_ne_ok _ _ _ _ _ _ _ houtcome)
  · rename_i metadata houtcome
    have hinitial := handleHeaders_initialMetadata _ _ _ _ _ _ _ houtcome
    exact .inr ⟨[.headers phase headers], .serverInitialMetadataReceived metadata, by
      simp [emit, push, Event.signalled, Event.isFinished, Event.transport, Admits, hunfinished,
        hinitial]⟩
  · rename_i metadata status houtcome
    have htrailers := handleHeaders_trailingMetadata _ _ _ _ _ _ _ _ houtcome
    exact hfinish _ status rfl hunfinished hopen rfl fun hok => by rwa [hok] at htrailers

omit env options in
/-- What cannot be decompressed fails with a code other than `Ok`. -/
theorem decompress_error_ne_ok (maxReceiveSize : UInt32) (finalPayload : Bytes)
    (reads : List ReadResult) (status : QGrpcStatus)
    (h : decompress maxReceiveSize finalPayload reads = .error status) : status.code ≠ .ok := by
  induction reads generalizing finalPayload with
  | nil => cases h
  | cons read reads ih =>
    cases read with
    | error errorString =>
      cases h
      simp
    | ok buffer =>
      simp only [decompress] at h
      split at h
      · cases h
        simp
      · exact ih _ h

omit env options in
/-- A frame whose payload cannot be had fails with a code other than `Ok`. -/
theorem framePayload_error_ne_ok (rpc : Rpc) (frame : Frame) (reads : List ReadResult)
    (status : QGrpcStatus) (h : rpc.framePayload frame reads = .error status) :
    status.code ≠ .ok := by
  unfold framePayload at h
  split at h
  · split at h
    · cases h
      simp
    · exact decompress_error_ne_ok _ _ _ _ h
  · cases h

/-- One round of the data loop delivers a frame, fails the RPC, or ends it with the stream. -/
theorem receiveNext_effect (rpc : Rpc) (rest : List Continuation) (endStream : Bool)
    (reads : List ReadResult) (hstack : rpc.stack = .dataReceived endStream :: rest) :
    Effect (Admits env options rpc (.resume reads)) rpc
      (({ rpc with stack := rest }).receiveNext options endStream reads) := by
  unfold receiveNext
  dsimp only
  split
  · rename_i parser hparse
    split
    · exact .inl (Quiet.of_eq rfl rfl)
    rename_i hend
    split
    · exact (Quiet.of_eq rfl rfl).fails env options (finish_fails _ _ (by simp))
    rename_i hempty
    have hparsed : Quiet rpc { rpc with stack := rest, grpcDataParser := parser } := .of_eq rfl rfl
    refine hparsed.effect ?_
    by_cases hopen : rpc.context = true ∧ rpc.state ≠ .finished
    · refine (finish_effect _ _).mono fun quiet e hfinishes before => ?_
      rw [hfinishes.2]
      refine ⟨hfinishes.1, fun _ => .inr ?_⟩
      have hunfinished : rpc.operationFinished = false := hfinishes.1
      simp_all [finishesOnEndStream]
    · refine .inl ?_
      unfold finish
      split
      · exact Quiet.of_eq rfl rfl
      · rw [if_pos (by simp_all)]
        exact Quiet.refl _
  · exact (Quiet.of_eq rfl rfl).fails env options (finish_fails _ _ (by simp))
  · rename_i frame parser hparse
    split
    · rename_i status hpayload
      exact (Quiet.of_eq rfl rfl).fails env options (finish_fails _ _
        (framePayload_error_ne_ok _ _ _ _ hpayload))
    · rename_i payload hpayload
      unfold messageReceived
      split
      · rename_i hsignals
        refine .inr ⟨[], .messageReceived payload, ?_⟩
        have hdelivered : (rpc.framePayload frame reads).isOk = true := by
          rw [show rpc.framePayload frame reads = .ok payload from hpayload]
          rfl
        simp [emit, push, Event.signalled, Event.isFinished, Admits, deliversFrame, hstack, hparse,
          hsignals, hdelivered]
      · exact .inl (Quiet.push (Quiet.of_eq rfl rfl) _)

/-- Code that runs on has the effects admitted for it. -/
theorem resume_effect (rpc next : Rpc) (reads : List ReadResult)
    (hstep : rpc.resume options reads = some next) :
    Effect (Admits env options rpc (.resume reads)) rpc next := by
  unfold resume at hstep
  split at hstep
  · cases hstep
    exact .inl (Quiet.of_eq rfl rfl)
  · rename_i endStream rest hstack
    cases hstep
    exact receiveNext_effect env options rpc rest endStream reads hstack
  · split at hstep
    · cases hstep
    · split at hstep <;> cases hstep
      · exact .inl (sendNext_quiet _ rpc)
      · exact .inl (Quiet.of_eq rfl rfl)
  · cases hstep
    exact .inl (Quiet.of_eq rfl rfl)
  · cases hstep
    split
    · exact (Quiet.of_eq rfl rfl).fails env options (cancelWithStatus_fails _ _ (by simp))
    · exact .inl (Quiet.of_eq rfl rfl)
  · cases hstep
    exact .inl ((Quiet.of_eq rfl rfl).trans (dropStream_quiet _))
  · cases hstep
    exact .inl ((Quiet.of_eq rfl rfl).trans (destroy_quiet _))
  · cases hstep

omit env options in
/-- The event loop runs where no code is left to run and the handler exists. -/
theorem atEventLoop_iff (rpc : Rpc) :
    rpc.atEventLoop = true ↔ rpc.stack = [] ∧ rpc.alive = true := by
  simp [atEventLoop]

/-- Every step has the effect its input allows. -/
theorem step_effect (rpc next : Rpc) (input : Input) (htracked : Tracked rpc)
    (hstep : step env options rpc input = some next) :
    Effect (Admits env options rpc input) rpc next := by
  have hunfinished (hstack : rpc.stack = []) (halive : rpc.alive = true)
      (hcontext : rpc.context = true) (hended : ¬ rpc.state.ended = true) :
      rpc.operationFinished = false := by
    by_contra h
    have hended := htracked.ended
    simp_all
  cases input <;> simp only [step] at hstep
  case headersReceived headers endStream =>
    split at hstep <;> cases hstep
    rename_i hready
    have hloop := (atEventLoop_iff rpc).mp hready.1
    exact headersReceived_effect env options rpc headers endStream _ htracked hloop.1 hloop.2
  case dataReceived data endStream =>
    split at hstep <;> cases hstep
    unfold dataReceived
    split
    · exact .inl (Quiet.refl rpc)
    · split
      · exact .inl (Quiet.refl rpc)
      · exact .inl (Quiet.push (Quiet.of_eq rfl rfl) _)
  case errorOccurred code text =>
    split at hstep
    · cases hstep
    · split at hstep
      · cases hstep
      · split at hstep <;> cases hstep
        · exact .inl (Quiet.refl rpc)
        · exact (Quiet.of_eq rfl rfl).fails env options
            (finish_fails _ _ (http2ErrorToStatusCode_ne_ok code))
  case bytesWritten bytes =>
    split at hstep <;> cases hstep
    exact .inl (Quiet.of_eq rfl rfl)
  case uploadFinished =>
    split at hstep
    · cases hstep
    · split at hstep <;> cases hstep
      exact .inl ((Quiet.emit (Quiet.of_eq rfl rfl) rfl).trans (uploadFinished_quiet options _))
  case uploadDropped =>
    split at hstep
    · cases hstep
    · split at hstep <;> cases hstep
      exact .inl (Quiet.emit (Quiet.of_eq rfl rfl) rfl)
  case streamStateChanged state =>
    obtain ⟨stream, -, rfl⟩ := Option.map_eq_some_iff.mp hstep
    exact .inl (Quiet.of_eq rfl rfl)
  case sendDATAAccepted =>
    split at hstep <;> cases hstep
    exact .inl (Quiet.emit (Quiet.of_eq rfl rfl) rfl)
  case sendDATARefused =>
    split at hstep <;> cases hstep
    exact .inl (Quiet.of_eq rfl rfl)
  case sendDATAReturned =>
    split at hstep <;> cases hstep
    exact .inl (Quiet.of_eq rfl rfl)
  case attachStream =>
    split at hstep <;> cases hstep
    exact .inl (Quiet.emit (Quiet.of_eq rfl rfl) rfl)
  case createStreamFailed error =>
    split at hstep <;> cases hstep
    exact .inl (asyncFinish_quiet rpc _)
  case sendInitialRequest sendHEADERS =>
    split at hstep <;> cases hstep
    exact .inl (sendInitialRequest_quiet options rpc sendHEADERS)
  case socketError errorCode =>
    split at hstep
    · cases hstep
    · split at hstep <;> cases hstep
      · exact .inl (destroy_quiet rpc)
      · exact (Quiet.push (Quiet.refl rpc) _).fails env options (finish_fails _ _ (by simp))
  case connectionDeleted =>
    split at hstep <;> cases hstep
    exact .inl (dropStream_quiet rpc)
  case channelDestroyed =>
    split at hstep
    · cases hstep
    · split at hstep <;> cases hstep
      · exact (Quiet.of_eq rfl rfl).fails env options (finish_fails _ _ (by simp))
      · exact .inl ((Quiet.of_eq rfl rfl).trans (destroy_quiet _))
  case writeMessage data compressed =>
    split at hstep <;> cases hstep
    split
    · exact (Quiet.refl rpc).fails env options (writeMessage_effect options rpc data compressed)
    · exact .inl (Quiet.refl rpc)
  case writeUnserializable messageTooLarge lastErrorString =>
    split at hstep <;> cases hstep
    split
    · refine (Quiet.refl rpc).fails env options (contextFinished_fails rpc _ _ ?_)
      cases messageTooLarge <;> simp [serializationFailure]
    · exact .inl (Quiet.refl rpc)
  case writesDone =>
    split at hstep <;> cases hstep
    split
    · exact .inl (writesDone_quiet options rpc)
    · exact .inl (Quiet.refl rpc)
  case cancel =>
    split at hstep <;> cases hstep
    unfold cancel
    split
    · exact .inl (Quiet.refl rpc)
    · exact (Quiet.refl rpc).fails env options (cancelWithStatus_fails rpc _ (by simp))
  case slotReturned =>
    split at hstep <;> cases hstep
    exact .inl (Quiet.of_eq rfl rfl)
  case resume reads => exact resume_effect env options rpc next reads hstep
  case deadlineTimeout =>
    split at hstep <;> cases hstep
    exact (Quiet.of_eq rfl rfl).fails env options (cancelWithStatus_fails _ _ (by simp))
  case callback callback =>
    split at hstep
    · cases hstep
    rename_i hready
    obtain ⟨hstack, hmem⟩ : rpc.stack = [] ∧ callback ∈ rpc.pending := by simpa using hready
    cases callback with
    | messageWritten =>
      simp only at hstep
      split at hstep
      · cases hstep
      · split at hstep <;> cases hstep
        · rename_i halive hemits
          have := hunfinished hstack (by simpa using halive) hemits.1 hemits.2.1
          exact .inr ⟨[], .messageWritten, by
            simp [emit, push, Event.signalled, Event.isFinished, Admits, this]⟩
        · exact .inl (Quiet.of_eq rfl rfl)
    | asyncFinish status =>
      simp only at hstep
      split at hstep <;> cases hstep
      exact (Quiet.of_eq rfl rfl).fails env options
        (finish_fails _ _ (htracked.pending status (.inl hmem)))
    | contextFinished status =>
      simp only at hstep
      split at hstep <;> cases hstep
      exact (Quiet.of_eq rfl rfl).fails env options
        (contextFinished_fails _ _ _ (htracked.pending status (.inr hmem)))
  case deferredDelete =>
    split at hstep <;> cases hstep
    exact .inl (destroy_quiet rpc)
  case contextDestroyed =>
    split at hstep <;> cases hstep
    exact .inl (Quiet.of_eq rfl rfl)

end

end Rpc

end QtGrpc.Http2
