import Mathlib.Data.List.Induction
import QtGrpc.Http2.Effect

/-!
# How an RPC ends

A run signals nothing after the operation has finished exactly if no step of it takes a
received frame to a finished operation, and reports success only with the trailers that
announce it exactly if no step ends an unfinished RPC on the end of the data stream alone.
-/

namespace QtGrpc.Http2

namespace Rpc

/-- Tracking survives a step that neither finishes the operation nor reopens the handler. -/
theorem Tracked.keep {rpc next : Rpc} (h : Tracked rpc)
    (hfinished : next.operationFinished = rpc.operationFinished)
    (hstate : rpc.state.ended = true → next.state.ended = true)
    (hstack : .cancelRequested ∈ rpc.stack → .cancelRequested ∈ next.stack)
    (halive : rpc.alive = false → next.alive = false)
    (hcontext : rpc.context = false → next.context = false)
    (hpending : ∀ c ∈ next.pending, c ∈ rpc.pending) : Tracked next := by
  refine ⟨fun hop => ?_, fun status hmem => h.pending status ?_,
    fun status hmem => halive (h.turnedDown status (hpending _ hmem))⟩
  · rcases h.ended (hfinished ▸ hop) with h | h | h | h
    · exact .inl (hstate h)
    · exact .inr (.inl (hstack h))
    · exact .inr (.inr (.inl (halive h)))
    · exact .inr (.inr (.inr (hcontext h)))
  · exact hmem.imp (hpending _) (hpending _)

/-- Tracking survives a step after which the handler is ended or gone. -/
theorem Tracked.close {rpc next : Rpc} (h : Tracked rpc)
    (hended : next.state.ended = true ∨ next.alive = false ∨ next.context = false)
    (halive : rpc.alive = false → next.alive = false)
    (hpending : ∀ c ∈ next.pending, c ∈ rpc.pending) : Tracked next :=
  ⟨fun _ => by tauto, fun status hmem => h.pending status (hmem.imp (hpending _) (hpending _)),
    fun status hmem => halive (h.turnedDown status (hpending _ hmem))⟩

/-- The end of an operation leaves the state of its handler. -/
@[simp] theorem contextFinished_state (rpc : Rpc) (status : QGrpcStatus)
    (after : List Continuation) : (rpc.contextFinished status after).state = rpc.state := by
  unfold contextFinished
  split <;> rfl

/-- It takes nothing out of the event loop. -/
@[simp] theorem contextFinished_pending (rpc : Rpc) (status : QGrpcStatus)
    (after : List Continuation) : (rpc.contextFinished status after).pending = rpc.pending := by
  unfold contextFinished
  split <;> rfl

/-- A handler that finishes has ended. -/
theorem finish_state_ended (rpc : Rpc) (status : QGrpcStatus) :
    (rpc.finish status).state.ended = true := by
  unfold finish
  split
  · rfl
  · split
    · rename_i h
      rw [h]
      rfl
    · rw [contextFinished_state]
      dsimp only
      split <;> rfl

/-- It takes nothing out of the event loop. -/
theorem finish_pending (rpc : Rpc) (status : QGrpcStatus) :
    (rpc.finish status).pending = rpc.pending := by
  unfold finish
  split
  · rfl
  · split
    · rfl
    · rw [contextFinished_pending]

/-- The end of an operation does not delete its handler. -/
@[simp] theorem contextFinished_alive (rpc : Rpc) (status : QGrpcStatus)
    (after : List Continuation) : (rpc.contextFinished status after).alive = rpc.alive := by
  unfold contextFinished
  split <;> rfl

/-- Nor does finishing. -/
theorem finish_alive (rpc : Rpc) (status : QGrpcStatus) :
    (rpc.finish status).alive = rpc.alive := by
  unfold finish
  split
  · rfl
  · split
    · rfl
    · rw [contextFinished_alive]

/-- Finishing keeps operation and handler in agreement. -/
theorem finish_tracked {rpc : Rpc} (h : Tracked rpc) (status : QGrpcStatus) :
    Tracked (rpc.finish status) :=
  h.close (.inl (finish_state_ended rpc status)) (by rw [finish_alive]; exact id)
    fun c hc => by rwa [finish_pending] at hc

/-- So does finishing later, with a code other than `Ok`. -/
theorem asyncFinish_tracked {rpc : Rpc} (h : Tracked rpc) (status : QGrpcStatus)
    (hstatus : status.code ≠ .ok) : Tracked (rpc.asyncFinish status) := by
  unfold asyncFinish
  split
  · exact h.close (.inl rfl) id fun _ hc => hc
  · refine ⟨h.ended, fun other hmem => ?_, fun other hmem => h.turnedDown other (by simpa using hmem)⟩
    simp only [List.mem_append, List.mem_singleton, Callback.asyncFinish.injEq, reduceCtorEq,
      or_false] at hmem
    rcases hmem with (hmem | rfl) | hmem
    · exact h.pending other (.inl hmem)
    · exact hstatus
    · exact h.pending other (.inr hmem)

/-- So does cancelling. -/
theorem cancelWithStatus_tracked {rpc : Rpc} (h : Tracked rpc) (status : QGrpcStatus) :
    Tracked (rpc.cancelWithStatus status) := by
  unfold cancelWithStatus
  split
  · exact h
  · have hcancelled : Tracked { rpc with state := .cancelled } := h.close (.inl rfl) id fun _ hc => hc
    dsimp only
    split
    · split
      · exact finish_tracked hcancelled status
      · refine finish_tracked ?_ status
        exact hcancelled.close (.inl rfl) id fun _ hc => hc
    · exact finish_tracked hcancelled status

/-- A cancellation leaves an ended handler, whatever it was before. -/
theorem cancelWithStatus_state_ended (rpc : Rpc) (status : QGrpcStatus) :
    (rpc.cancelWithStatus status).state.ended = true := by
  unfold cancelWithStatus
  split
  · assumption
  · exact finish_state_ended _ status

/-- The parts of the state that only the end of an RPC changes. -/
def SameEnd (rpc next : Rpc) : Prop :=
  next.operationFinished = rpc.operationFinished ∧ next.state = rpc.state ∧
    next.alive = rpc.alive ∧ next.context = rpc.context ∧ next.pending = rpc.pending ∧
    (.cancelRequested ∈ rpc.stack → .cancelRequested ∈ next.stack)

/-- So does a step that changes nothing about the end. -/
theorem SameEnd.tracked {rpc next : Rpc} (hsame : SameEnd rpc next) (h : Tracked rpc) :
    Tracked next := by
  obtain ⟨hfinished, hstate, halive, hcontext, hpending, hstack⟩ := hsame
  exact h.keep hfinished (by rw [hstate]; exact id) hstack (by rw [halive]; exact id)
    (by rw [hcontext]; exact id) (by rw [hpending]; exact fun _ hc => hc)

/-- Handing a message to the stream changes nothing about the end. -/
theorem sendNext_sameEnd (endStreamAtFirstData : Bool) (rpc : Rpc) :
    SameEnd rpc (rpc.sendNext endStreamAtFirstData) := by
  unfold sendNext
  split <;> simp [SameEnd, push, emit]

/-- Nor does the work on the queue. -/
theorem processQueue_sameEnd (endStreamAtFirstData : Bool) (rpc : Rpc) :
    SameEnd rpc (rpc.processQueue endStreamAtFirstData) := by
  unfold processQueue sendNext
  split
  · simp [SameEnd]
  · split
    · simp [SameEnd]
    · split
      · simp [SameEnd]
      · split
        · simp [SameEnd]
        · split <;> simp [SameEnd, push, emit]

/-- Nor does the loss of the stream. -/
theorem dropStream_sameEnd (rpc : Rpc) : SameEnd rpc rpc.dropStream := by
  unfold dropStream
  split
  · split <;> simp [SameEnd, emit]
  · simp [SameEnd]

/-- The work on the queue keeps operation and handler in agreement. -/
theorem processQueue_tracked {rpc : Rpc} (h : Tracked rpc) (endStreamAtFirstData : Bool) :
    Tracked (rpc.processQueue endStreamAtFirstData) :=
  (processQueue_sameEnd endStreamAtFirstData rpc).tracked h

/-- So does the end of the operation object. -/
theorem destroy_tracked {rpc : Rpc} (h : Tracked rpc) : Tracked rpc.destroy :=
  (dropStream_sameEnd _).tracked (h.close (.inr (.inl rfl)) (fun _ => rfl) fun _ hc => hc)

/-- So does writing a message. -/
theorem writeMessage_tracked {rpc : Rpc} (h : Tracked rpc) (options : HandlerOptions)
    (data : Bytes) (compressed : Option Bytes) :
    Tracked (rpc.writeMessage options data compressed) := by
  unfold writeMessage
  split
  · exact h
  · split
    · exact finish_tracked h _
    · refine processQueue_tracked ?_ _
      exact h.keep rfl id id id id fun _ hc => hc

/-- So does closing the request. -/
theorem writesDone_tracked {rpc : Rpc} (h : Tracked rpc) (options : HandlerOptions) :
    Tracked (rpc.writesDone options) := by
  unfold writesDone
  split
  · exact h
  · dsimp only
    split
    · exact h.keep rfl id id id id fun _ hc => hc
    · refine processQueue_tracked ?_ _
      exact h.keep rfl id id id id fun _ hc => hc

/-- An unfinished operation makes the first half of tracking vacuous. -/
theorem Tracked.open {rpc next : Rpc} (h : Tracked rpc) (hfinished : next.operationFinished = false)
    (halive : next.alive = rpc.alive) (hpending : next.pending = rpc.pending) : Tracked next :=
  ⟨by simp [hfinished], by rw [hpending]; exact h.pending,
    by rw [hpending, halive]; exact h.turnedDown⟩

/-- From the event loop an open handler belongs to an unfinished operation. -/
theorem Tracked.unfinished {rpc : Rpc} (h : Tracked rpc) (hstack : rpc.stack = [])
    (halive : rpc.alive = true) (hcontext : rpc.context = true)
    (hended : ¬ rpc.state.ended = true) : rpc.operationFinished = false := by
  by_contra hfinished
  have := h.ended
  simp_all

/-- So does sending the request of an existing operation. -/
theorem sendInitialRequest_tracked {rpc : Rpc} (h : Tracked rpc) (options : HandlerOptions)
    (sendHEADERS : Bool) (hstack : rpc.stack = []) (halive : rpc.alive = true)
    (hcontext : rpc.context = true) : Tracked (rpc.sendInitialRequest options sendHEADERS) := by
  unfold sendInitialRequest
  split
  · exact h
  · rename_i hended
    split
    · exact asyncFinish_tracked h _ (by simp)
    · refine processQueue_tracked ?_ _
      exact h.open (h.unfinished hstack halive hcontext hended) rfl rfl

/-- So do received headers. -/
theorem headersReceived_tracked {rpc : Rpc} (h : Tracked rpc) (env : Environment)
    (options : HandlerOptions) (headers : HttpHeader) (endStream : Bool)
    (hstack : rpc.stack = []) (halive : rpc.alive = true) :
    Tracked (rpc.headersReceived env options headers endStream) := by
  unfold headersReceived
  split
  · exact h.keep rfl id id id id fun _ hc => hc
  rename_i hended
  split
  · exact h
  dsimp only
  split
  · exact h.close (.inl rfl) id fun _ hc => hc
  rename_i hcontext
  have hunfinished := h.unfinished hstack halive (by simpa using hcontext) hended
  split
  · refine finish_tracked ?_ _
    exact h.open hunfinished rfl rfl
  · exact h.open hunfinished rfl rfl
  · refine finish_tracked ?_ _
    exact h.open hunfinished rfl rfl

/-- So do received messages. -/
theorem receiveNext_tracked {rpc : Rpc} (h : Tracked rpc) (options : HandlerOptions)
    (endStream : Bool) (reads : List ReadResult) :
    Tracked (rpc.receiveNext options endStream reads) := by
  have hparsed (parser : GrpcDataParser) : Tracked { rpc with grpcDataParser := parser } :=
    h.keep rfl id id id id fun _ hc => hc
  unfold receiveNext
  dsimp only
  split
  · split
    · exact hparsed _
    · split <;> exact finish_tracked (hparsed _) _
  · exact finish_tracked (hparsed _) _
  · split
    · exact finish_tracked (hparsed _) _
    · unfold messageReceived
      split
      · exact h.keep rfl id (by simp [push, emit]) id id fun _ hc => hc
      · exact h.keep rfl id (by simp [push]) id id fun _ hc => hc

/-- So does code that runs on. -/
theorem resume_tracked {rpc next : Rpc} (h : Tracked rpc) (options : HandlerOptions)
    (reads : List ReadResult) (hstep : rpc.resume options reads = some next) : Tracked next := by
  have hpop (code : Continuation) (rest : List Continuation) (hstack : rpc.stack = code :: rest)
      (hcode : code ≠ .cancelRequested) : Tracked { rpc with stack := rest } :=
    h.keep rfl id (by rw [hstack]; simp [hcode.symm]) id id fun _ hc => hc
  unfold resume at hstep
  split at hstep
  · rename_i rest hstack
    cases hstep
    exact (hpop _ rest hstack (by simp)).keep rfl id id id id fun _ hc => hc
  · rename_i endStream rest hstack
    cases hstep
    exact receiveNext_tracked (hpop _ rest hstack (by simp)) options endStream reads
  · rename_i rest hstack
    split at hstep
    · cases hstep
    · split at hstep <;> cases hstep
      · exact (sendNext_sameEnd _ rpc).tracked h
      · exact (hpop _ rest hstack (by simp)).keep rfl id id id id fun _ hc => hc
  · rename_i rest hstack
    cases hstep
    exact (hpop _ rest hstack (by simp)).keep rfl id id id id fun _ hc => hc
  · rename_i rest hstack
    cases hstep
    split
    · rename_i halive
      refine h.close (.inl (cancelWithStatus_state_ended _ _)) (by simp [halive]) fun c hc => ?_
      unfold cancelWithStatus at hc
      split at hc
      · exact hc
      · rw [finish_pending] at hc
        revert hc
        split
        · split <;> exact id
        · exact id
    · rename_i halive
      exact h.close (.inr (.inl (by simpa using halive))) id fun _ hc => hc
  · rename_i rest hstack
    cases hstep
    exact (dropStream_sameEnd _).tracked (hpop _ rest hstack (by simp))
  · rename_i rest hstack
    cases hstep
    exact destroy_tracked (hpop _ rest hstack (by simp))
  · cases hstep

/-- Every step keeps the operation and its handler in agreement. -/
theorem step_tracked (env : Environment) (options : HandlerOptions) (rpc next : Rpc)
    (input : Input) (h : Tracked rpc) (hstep : step env options rpc input = some next) :
    Tracked next := by
  cases input <;> simp only [step] at hstep
  case headersReceived headers endStream =>
    split at hstep <;> cases hstep
    rename_i hready
    have hloop := (atEventLoop_iff rpc).mp hready.1
    exact headersReceived_tracked h env options headers endStream hloop.1 hloop.2
  case dataReceived data endStream =>
    split at hstep <;> cases hstep
    unfold dataReceived
    split
    · exact h
    · split
      · exact h
      · exact h.keep rfl id (by simp [push]) id id fun _ hc => hc
  case errorOccurred code text =>
    split at hstep
    · cases hstep
    · split at hstep
      · cases hstep
      · split at hstep <;> cases hstep
        · exact h
        · refine finish_tracked ?_ _
          exact h.keep rfl id id id id fun _ hc => hc
  case bytesWritten bytes =>
    split at hstep <;> cases hstep
    exact h.keep rfl id id id id fun _ hc => hc
  case uploadFinished =>
    split at hstep
    · cases hstep
    · split at hstep <;> cases hstep
      have hscheduled (scheduled : Rpc) (hop : scheduled.operationFinished = rpc.operationFinished)
          (hstate : scheduled.state = rpc.state) (hstack : scheduled.stack = rpc.stack)
          (halive : scheduled.alive = rpc.alive) (hcontext : scheduled.context = rpc.context)
          (hpending : scheduled.pending = rpc.pending ∨
            scheduled.pending = rpc.pending ++ [.messageWritten]) : Tracked scheduled := by
        refine ⟨by rw [hop, hstate, hstack, halive, hcontext]; exact h.ended, fun status hmem => ?_,
          fun status hmem => ?_⟩
        · apply h.pending status
          rcases hpending with hp | hp <;> simpa [hp] using hmem
        · rw [halive]
          apply h.turnedDown status
          rcases hpending with hp | hp <;> simpa [hp] using hmem
      unfold uploadFinished
      extract_lets scheduled
      have : Tracked scheduled := by
        unfold scheduled
        split
        · exact hscheduled _ rfl rfl rfl rfl rfl (.inr rfl)
        · exact hscheduled _ rfl rfl rfl rfl rfl (.inl rfl)
      split
      · exact this
      · exact processQueue_tracked this _
  case uploadDropped =>
    split at hstep
    · cases hstep
    · split at hstep <;> cases hstep
      exact h.keep rfl id id id id fun _ hc => hc
  case streamStateChanged state =>
    obtain ⟨stream, -, rfl⟩ := Option.map_eq_some_iff.mp hstep
    exact h.keep rfl id id id id fun _ hc => hc
  case sendDATAAccepted =>
    split at hstep <;> cases hstep
    rename_i hstack _
    exact h.keep rfl id (by rw [hstack]; simp [emit]) id id fun _ hc => hc
  case sendDATARefused =>
    split at hstep <;> cases hstep
    rename_i hstack
    exact h.keep rfl id (by rw [hstack]; simp) id id fun _ hc => hc
  case sendDATAReturned =>
    split at hstep <;> cases hstep
    rename_i hstack
    exact h.keep rfl id (by rw [hstack]; simp) id id fun _ hc => hc
  case attachStream =>
    split at hstep <;> cases hstep
    exact h.keep rfl id id id id fun _ hc => hc
  case createStreamFailed error =>
    split at hstep <;> cases hstep
    exact asyncFinish_tracked h _ (by simp)
  case sendInitialRequest sendHEADERS =>
    split at hstep <;> cases hstep
    rename_i hready
    have hloop := (atEventLoop_iff rpc).mp hready.1
    exact sendInitialRequest_tracked h options sendHEADERS hloop.1 hloop.2 hready.2.1
  case socketError errorCode =>
    split at hstep
    · cases hstep
    · split at hstep <;> cases hstep
      · exact destroy_tracked h
      · refine finish_tracked ?_ _
        exact h.keep rfl id (by simp [push]) id id fun _ hc => hc
  case connectionDeleted =>
    split at hstep <;> cases hstep
    exact (dropStream_sameEnd rpc).tracked h
  case channelDestroyed =>
    split at hstep
    · cases hstep
    · split at hstep <;> cases hstep
      · refine finish_tracked ?_ _
        exact h.keep rfl id (by simp [push]) id id fun _ hc => hc
      · refine destroy_tracked ?_
        exact h.keep rfl id id id id fun _ hc => hc
  case writeMessage data compressed =>
    split at hstep <;> cases hstep
    split
    · exact writeMessage_tracked h options data compressed
    · exact h
  case writeUnserializable messageTooLarge lastErrorString =>
    split at hstep <;> cases hstep
    split
    · unfold contextFinished
      split
      · exact h.keep rfl id (by simp [push]) id id fun _ hc => hc
      · exact ⟨fun _ => .inr (.inl (by simp [push])), h.pending, h.turnedDown⟩
    · exact h
  case writesDone =>
    split at hstep <;> cases hstep
    split
    · exact writesDone_tracked h options
    · exact h
  case cancel =>
    split at hstep <;> cases hstep
    unfold cancel
    split
    · exact h
    · exact cancelWithStatus_tracked h _
  case slotReturned =>
    split at hstep <;> cases hstep
    rename_i hstack
    exact h.keep rfl id (by rw [hstack]; simp) id id fun _ hc => hc
  case resume reads => exact resume_tracked h options reads hstep
  case deadlineTimeout =>
    split at hstep <;> cases hstep
    refine cancelWithStatus_tracked ?_ _
    exact h.keep rfl id id id id fun _ hc => hc
  case callback callback =>
    have htaken : Tracked { rpc with pending := rpc.pending.erase callback } :=
      h.keep rfl id id id id fun c hc => List.mem_of_mem_erase hc
    split at hstep
    · cases hstep
    rename_i hready
    have hstack : rpc.stack = [] := by simp_all
    cases callback with
    | messageWritten =>
      simp only at hstep
      split at hstep
      · cases hstep
      · split at hstep <;> cases hstep
        · exact htaken.keep rfl id (by simp [push, emit]) id id fun _ hc => hc
        · exact htaken
    | asyncFinish status =>
      simp only at hstep
      split at hstep <;> cases hstep
      exact finish_tracked htaken status
    | contextFinished status =>
      simp only at hstep
      split at hstep <;> cases hstep
      have hturned := h.turnedDown status (by simp_all)
      refine htaken.close (.inr (.inl ?_)) ?_ ?_
      · rw [contextFinished_alive, ← hturned]
      · rw [contextFinished_alive]
        exact id
      · rw [contextFinished_pending]
        exact fun _ hc => hc
  case deferredDelete =>
    split at hstep <;> cases hstep
    exact destroy_tracked h
  case contextDestroyed =>
    split at hstep <;> cases hstep
    exact h.close (.inr (.inr rfl)) id fun _ hc => hc

end Rpc

/-! ## Nothing behind the end -/

/-- No signal of the operation comes after `finished`, which therefore comes at most once. -/
def SilentAfterFinished (trace : List Event) : Prop :=
  ∀ before status after, trace = before ++ .finished status :: after →
    ∀ e ∈ after, e.signalled = false

/-- Success is only signalled behind trailers that announce it. -/
def OkNeedsTrailers (env : Environment) (trace : List Event) : Prop :=
  ∀ before status after, trace = before ++ .finished status :: after → status.code = .ok →
    AnnouncesOk env before

/-- A signal may follow as long as the operation has not finished. -/
theorem silentAfterFinished_concat {trace : List Event} {e : Event}
    (h : SilentAfterFinished trace)
    (he : e.signalled = true → ∀ status, .finished status ∉ trace) :
    SilentAfterFinished (trace ++ [e]) := by
  intro before status after hsplit e' he'
  rcases concat_eq_append_cons hsplit with ⟨rfl, -⟩ | ⟨rest, rfl, hrest⟩
  · cases he'
  · rcases List.mem_append.mp he' with hmem | hmem
    · exact h before status rest hrest e' hmem
    · obtain rfl := List.mem_singleton.mp hmem
      by_contra hsignal
      exact he (by simpa using hsignal) status (by rw [hrest]; simp)

/-- Other events may follow at any time. -/
theorem silentAfterFinished_append {trace quiet : List Event} (h : SilentAfterFinished trace)
    (hquiet : ∀ e ∈ quiet, e.signalled = false) : SilentAfterFinished (trace ++ quiet) := by
  induction quiet using List.reverseRecOn with
  | nil => simpa using h
  | append_singleton quiet e ih =>
    rw [← List.append_assoc]
    refine silentAfterFinished_concat (ih fun e' he' => hquiet e' (by simp [he'])) fun he => ?_
    rw [hquiet e (by simp)] at he
    cases he

/-- What is silent to its end was silent before. -/
theorem SilentAfterFinished.of_append {trace later : List Event}
    (h : SilentAfterFinished (trace ++ later)) : SilentAfterFinished trace := by
  intro before status after hsplit e he
  exact h before status (after ++ later) (by rw [hsplit]; simp) e (by simp [he])

/-- What was announced stays so. -/
theorem AnnouncesOk.mono {env : Environment} {trace longer : List Event}
    (h : AnnouncesOk env trace) (hsub : ∀ e ∈ trace, e ∈ longer) : AnnouncesOk env longer := by
  obtain ⟨phase, headers, hmem, hphase, hstatus⟩ := h
  exact ⟨phase, headers, hsub _ hmem, hphase, hstatus⟩

/-- A success may follow once it is announced. -/
theorem okNeedsTrailers_concat {env : Environment} {trace : List Event} {e : Event}
    (h : OkNeedsTrailers env trace)
    (he : ∀ status, e = .finished status → status.code = .ok → AnnouncesOk env trace) :
    OkNeedsTrailers env (trace ++ [e]) := by
  intro before status after hsplit hok
  rcases concat_eq_append_cons hsplit with ⟨-, rfl, rfl⟩ | ⟨rest, -, hrest⟩
  · exact he status rfl hok
  · exact h before status rest hrest hok

/-- Other events may follow at any time. -/
theorem okNeedsTrailers_append {env : Environment} {trace quiet : List Event}
    (h : OkNeedsTrailers env trace) (hquiet : ∀ e ∈ quiet, e.signalled = false) :
    OkNeedsTrailers env (trace ++ quiet) := by
  induction quiet using List.reverseRecOn with
  | nil => simpa using h
  | append_singleton quiet e ih =>
    rw [← List.append_assoc]
    refine okNeedsTrailers_concat (ih fun e' he' => hquiet e' (by simp [he'])) ?_
    rintro status rfl
    cases hquiet (.finished status) (by simp)

/-- What holds of a trace held before its end. -/
theorem OkNeedsTrailers.of_append {env : Environment} {trace later : List Event}
    (h : OkNeedsTrailers env (trace ++ later)) : OkNeedsTrailers env trace := by
  intro before status after hsplit
  exact h before status (after ++ later) (by rw [hsplit]; simp)

namespace Rpc

/-- What every reachable configuration knows about the end of its RPC. -/
structure Ending (env : Environment) (rpc : Rpc) : Prop where
  tracked : Tracked rpc
  finished : rpc.operationFinished = true ↔ ∃ status, .finished status ∈ rpc.trace
  announced : AnnouncesOk env rpc.trace → rpc.operationFinished = true

/-- A step with an admitted effect keeps what is known about the end. -/
theorem Effect.ending {env : Environment} {options : HandlerOptions} {rpc next : Rpc}
    {input : Input} (heffect : Effect (Admits env options rpc input) rpc next)
    (h : Ending env rpc) (htracked : Tracked next) : Ending env next := by
  rcases heffect with ⟨quiet, htrace, hquiet, hfinished⟩ |
    ⟨quiet, e, htrace, hquiet, he, hadmits, hfinished⟩
  · refine ⟨htracked, ?_, ?_⟩
    · rw [hfinished, h.finished, htrace]
      refine ⟨fun ⟨status, hs⟩ => ⟨status, by simp [hs]⟩, fun ⟨status, hs⟩ => ⟨status, ?_⟩⟩
      rcases List.mem_append.mp hs with hs | hs
      · exact hs
      · cases Event.signalled_of_transport (hquiet _ hs)
    · rintro ⟨phase, headers, hmem, hphase, hstatus⟩
      rw [hfinished]
      rw [htrace] at hmem
      rcases List.mem_append.mp hmem with hmem | hmem
      · exact h.announced ⟨phase, headers, hmem, hphase, hstatus⟩
      · have := hquiet _ hmem
        simp_all [Event.transport]
  · have hnotQuiet (status : QGrpcStatus) : .finished status ∉ quiet := fun hs => by
      cases (hquiet _ hs).1
    refine ⟨htracked, ?_, ?_⟩
    · rw [hfinished, Bool.or_eq_true, h.finished, htrace]
      constructor
      · rintro (⟨status, hs⟩ | hs)
        · exact ⟨status, by simp [hs]⟩
        · cases e <;> simp_all [Event.isFinished]
      · rintro ⟨status, hs⟩
        simp only [List.mem_append, List.mem_singleton] at hs
        rcases hs with (hs | hs) | rfl
        · exact .inl ⟨status, hs⟩
        · exact absurd hs (hnotQuiet status)
        · exact .inr rfl
    · rintro ⟨phase, headers, hmem, hphase, hstatus⟩
      rw [hfinished, Bool.or_eq_true]
      rw [htrace] at hmem
      simp only [List.mem_append, List.mem_singleton] at hmem
      rcases hmem with (hmem | hmem) | rfl
      · exact .inl (h.announced ⟨phase, headers, hmem, hphase, hstatus⟩)
      · rcases (hquiet _ hmem).2 with htransport | hfin
        · simp_all [Event.transport]
        · exact .inr hfin
      · cases he

/-- So does every input. -/
theorem step_ending (env : Environment) (options : HandlerOptions) (rpc next : Rpc)
    (input : Input) (h : Ending env rpc) (hstep : step env options rpc input = some next) :
    Ending env next :=
  (step_effect env options rpc next input h.tracked hstep).ending h
    (step_tracked env options rpc next input h.tracked hstep)

/-- A handler under construction has signalled nothing. -/
theorem fresh_tracked (options : HandlerOptions) : Tracked (fresh options) :=
  ⟨by simp [fresh], by simp [fresh], by simp [fresh]⟩

/-- Nothing has been signalled by a new handler. -/
theorem fresh_ending (env : Environment) (options : HandlerOptions) :
    Ending env (fresh options) :=
  ⟨fresh_tracked options, by simp [fresh], by simp [fresh, AnnouncesOk]⟩

/-- Constructing a handler can only fail the RPC, as no input but a user call could. -/
theorem constructed_effect (env : Environment) (options : HandlerOptions) (data : Bytes)
    (compressed : Option Bytes) :
    Effect (Admits env options (fresh options) .cancel) (fresh options)
      ((fresh options).writeMessage options data compressed) :=
  (Quiet.refl _).fails env options (writeMessage_effect options (fresh options) data compressed)

/-- At the start of a call the RPC may have failed, and nothing else. -/
theorem starts_ending (env : Environment) (options : HandlerOptions) (start : Rpc)
    (hstart : Starts options start) : Ending env start := by
  cases hstart with
  | constructed data compressed =>
    exact (constructed_effect env options data compressed).ending (fresh_ending env options)
      (writeMessage_tracked (fresh_tracked options) options data compressed)
  | turnedDown status h =>
    exact ⟨⟨by simp [fresh], by simpa [fresh] using h, by simp⟩, by simp [fresh],
      by simp [fresh, AnnouncesOk]⟩

/-- A step that keeps frames away from a finished operation signals nothing behind its end. -/
theorem Effect.silent {env : Environment} {options : HandlerOptions} {rpc next : Rpc}
    {input : Input} (heffect : Effect (Admits env options rpc input) rpc next)
    (h : Ending env rpc)
    (hcondition : ¬ (rpc.operationFinished = true ∧ rpc.deliversFrame options input = true))
    (hsilent : SilentAfterFinished rpc.trace) : SilentAfterFinished next.trace := by
  rcases heffect with ⟨quiet, htrace, hquiet, -⟩ | ⟨quiet, e, htrace, hquiet, -, hadmits, -⟩
  · rw [htrace]
    exact silentAfterFinished_append hsilent fun e he => Event.signalled_of_transport (hquiet e he)
  · have hopen : e.signalled = true → rpc.operationFinished = false := by
      intro he
      cases e <;> simp_all [Admits, Event.signalled]
    rw [htrace]
    refine silentAfterFinished_concat
      (silentAfterFinished_append hsilent fun e he => (hquiet e he).1) fun he status hmem => ?_
    rcases List.mem_append.mp hmem with hmem | hmem
    · rw [h.finished.mpr ⟨status, hmem⟩] at hopen
      cases hopen he
    · cases (hquiet _ hmem).1

/-- A step that does not end the RPC on the data stream reports success with trailers only. -/
theorem Effect.okNeedsTrailers {env : Environment} {options : HandlerOptions} {rpc next : Rpc}
    {input : Input} (heffect : Effect (Admits env options rpc input) rpc next)
    (hcondition : ¬ rpc.finishesOnEndStream input = true)
    (hok : OkNeedsTrailers env rpc.trace) : OkNeedsTrailers env next.trace := by
  rcases heffect with ⟨quiet, htrace, hquiet, -⟩ | ⟨quiet, e, htrace, hquiet, -, hadmits, -⟩
  · rw [htrace]
    exact okNeedsTrailers_append hok fun e he => Event.signalled_of_transport (hquiet e he)
  · rw [htrace]
    refine okNeedsTrailers_concat (okNeedsTrailers_append hok fun e he => (hquiet e he).1) ?_
    rintro status rfl hstatus
    exact (hadmits.2 hstatus).elim (fun h => h.mono fun e he => by simp [he])
      fun h => absurd h hcondition

/-- Every step only adds to the trace. -/
theorem step_trace (env : Environment) (options : HandlerOptions) (rpc next : Rpc)
    (input : Input) (h : Ending env rpc) (hstep : step env options rpc input = some next) :
    ∃ events, next.trace = rpc.trace ++ events := by
  rcases step_effect env options rpc next input h.tracked hstep with
    ⟨quiet, htrace, -⟩ | ⟨quiet, e, htrace, -⟩
  · exact ⟨quiet, htrace⟩
  · exact ⟨quiet ++ [e], by rw [htrace, List.append_assoc]⟩

/-- The step that hands a frame to the user takes it from the buffer and signals its payload. -/
theorem deliversFrame_step {env : Environment} {options : HandlerOptions} {rpc next : Rpc}
    {input : Input} (hdelivers : rpc.deliversFrame options input = true)
    (hstep : step env options rpc input = some next) :
    ∃ reads endStream rest frame parser payload, input = .resume reads ∧
      rpc.stack = .dataReceived endStream :: rest ∧
      rpc.grpcDataParser.parseNextFrame = (.ok frame, parser) ∧
      rpc.framePayload frame reads = .ok payload ∧
      next.trace = rpc.trace ++ [.messageReceived payload] := by
  unfold deliversFrame at hdelivers
  split at hdelivers
  · rename_i reads
    split at hdelivers
    · rename_i endStream rest frame parser hstack hparse
      obtain ⟨hsignals, hpayload⟩ := Bool.and_eq_true_iff.mp hdelivers
      obtain ⟨payload, hpayload⟩ : ∃ payload, rpc.framePayload frame reads = .ok payload := by
        cases hframe : rpc.framePayload frame reads with
        | error status =>
          rw [hframe] at hpayload
          cases hpayload
        | ok payload => exact ⟨payload, rfl⟩
      refine ⟨reads, endStream, rest, frame, parser, payload, rfl, hstack, hparse, hpayload, ?_⟩
      have hpayload' : ({ rpc with stack := rest } : Rpc).framePayload frame reads =
          .ok payload := hpayload
      simp only [step, resume, hstack, Option.some.injEq] at hstep
      rw [← hstep]
      simp [receiveNext, hparse, hpayload', messageReceived, hsignals, emit, push]
    · cases hdelivers
  · cases hdelivers

/-- A frame taken for a finished operation is signalled behind its end. -/
theorem deliversFrame_breaks (env : Environment) (options : HandlerOptions) (rpc next : Rpc)
    (input : Input) (h : Ending env rpc) (hfinished : rpc.operationFinished = true)
    (hdelivers : rpc.deliversFrame options input = true)
    (hstep : step env options rpc input = some next) : ¬ SilentAfterFinished next.trace := by
  obtain ⟨-, -, -, -, -, payload, -, -, -, -, htrace⟩ := deliversFrame_step hdelivers hstep
  obtain ⟨status, hmem⟩ := h.finished.mp hfinished
  obtain ⟨before, after, hsplit⟩ := List.append_of_mem hmem
  intro hsilent
  have := hsilent before status (after ++ [.messageReceived payload])
    (by rw [htrace, hsplit]; simp) (.messageReceived payload) (by simp)
  cases this

/-- Ending an RPC on the data stream alone reports a success no trailers announced. -/
theorem finishesOnEndStream_breaks (env : Environment) (options : HandlerOptions)
    (rpc next : Rpc) (input : Input) (h : Ending env rpc)
    (hfinishes : rpc.finishesOnEndStream input = true)
    (hstep : step env options rpc input = some next) : ¬ OkNeedsTrailers env next.trace := by
  unfold finishesOnEndStream at hfinishes
  split at hfinishes
  · rename_i reads
    split at hfinishes
    · rename_i rest parser hstack hparse
      have hopen : parser.bytesAvailable = 0 ∧ rpc.context = true ∧ ¬ rpc.state = .finished ∧
          rpc.operationFinished = false := by simpa using hfinishes
      have htrace : next.trace = rpc.trace ++ [.finished {}] := by
        simp only [step, resume, hstack, Option.some.injEq] at hstep
        rw [← hstep]
        simp [receiveNext, hparse, hopen, finish, contextFinished, emit, push]
      intro hok
      have := h.announced (hok rpc.trace {} [] (by rw [htrace]) rfl)
      rw [hopen.2.2.2] at this
      cases this
    · cases hfinishes
  · cases hfinishes

end Rpc

/-! ## Whole runs -/

/-- A run emits no signal after `finished`, and `finished` at most once, exactly if no step of it
takes a received frame from the buffer to an operation that has finished. -/
theorem silentAfterFinished_iff (env : Environment) (options : HandlerOptions) (start final : Rpc)
    (inputs : List Input) (hstart : Rpc.Starts options start)
    (hrun : Transition.run (Rpc.step env options) start inputs = some final) :
    SilentAfterFinished final.trace ↔
      Transition.Along (Rpc.step env options)
        (fun rpc input =>
          ¬ (rpc.operationFinished = true ∧ rpc.deliversFrame options input = true))
        start inputs := by
  have hending := Rpc.starts_ending env options start hstart
  have hsilent : SilentAfterFinished start.trace := by
    cases hstart with
    | constructed data compressed =>
      exact (Rpc.constructed_effect env options data compressed).silent
        (Rpc.fresh_ending env options)
        (by simp [Rpc.deliversFrame]) (by simp [SilentAfterFinished, Rpc.fresh])
    | turnedDown status h => simp [SilentAfterFinished, Rpc.fresh]
  constructor
  · intro hfinal
    refine Transition.along_of_run _ _ (Rpc.Ending env)
      (fun rpc => Rpc.Ending env rpc ∧ ¬ SilentAfterFinished rpc.trace)
      (fun rpc input next h _ => Rpc.step_ending env options rpc next input h)
      (fun rpc input next h hcondition hstep => ?_)
      (fun rpc input next h hstep => ?_) start final inputs hending hrun (fun h => h.2 hfinal)
    · obtain ⟨hfinished, hdelivers⟩ := not_not.mp hcondition
      exact ⟨Rpc.step_ending env options rpc next input h hstep,
        Rpc.deliversFrame_breaks env options rpc next input h hfinished hdelivers hstep⟩
    · refine ⟨Rpc.step_ending env options rpc next input h.1 hstep, fun hnext => h.2 ?_⟩
      obtain ⟨events, htrace⟩ := Rpc.step_trace env options rpc next input h.1 hstep
      exact (htrace ▸ hnext).of_append
  · intro halong
    refine (Transition.run_invariant_along _ _
      (fun rpc => Rpc.Ending env rpc ∧ SilentAfterFinished rpc.trace)
      (fun rpc input next h hcondition hstep => ?_) start final inputs ⟨hending, hsilent⟩ halong
      hrun).2
    exact ⟨Rpc.step_ending env options rpc next input h.1 hstep,
      (Rpc.step_effect env options rpc next input h.1.tracked hstep).silent h.1 hcondition h.2⟩

/-- The slot of the first of two frames received together cancels the operation. -/
def cancelledBetweenFrames : List Input :=
  answered ++ [.dataReceived [0, 0, 0, 0, 0, 0, 0, 0, 0, 0] false, .resume [], .cancel,
    .slotReturned, .resume [], .slotReturned, .resume []]

/-- The second frame is delivered behind the end of the cancelled operation. -/
theorem not_silentAfterFinished_cancelledBetweenFrames :
    ∃ final, Transition.run (Rpc.step plainEnvironment bidiOptions) startedBidi
      cancelledBetweenFrames = some final ∧ ¬ SilentAfterFinished final.trace := by
  obtain ⟨final, hrun⟩ := Option.isSome_iff_exists.mp
    (show (Transition.run (Rpc.step plainEnvironment bidiOptions) startedBidi
      cancelledBetweenFrames).isSome = true by decide)
  have hlast : (Transition.run (Rpc.step plainEnvironment bidiOptions) startedBidi
      cancelledBetweenFrames).map (fun rpc => rpc.trace.drop 9) =
        some [.finished ⟨.cancelled, "Cancelled by client"⟩, .messageReceived []] := by decide
  rw [hrun, Option.map_some, Option.some.injEq] at hlast
  refine ⟨final, hrun, fun hsilent => ?_⟩
  have := hsilent (final.trace.take 9) _ [.messageReceived []]
    (by rw [← hlast, List.take_append_drop]) (.messageReceived []) (by simp)
  cases this

/-- A conversation in which a message is received before the trailers meets the condition, so that
nothing is signalled behind its end. -/
theorem silentAfterFinished_iff_conversation :
    ∃ final, Transition.run (Rpc.step plainEnvironment bidiOptions) startedBidi conversation =
        some final ∧ .messageReceived [42] ∈ final.trace ∧ .finished {} ∈ final.trace ∧
      SilentAfterFinished final.trace := by
  obtain ⟨final, hrun⟩ := Option.isSome_iff_exists.mp
    (show (Transition.run (Rpc.step plainEnvironment bidiOptions) startedBidi
      conversation).isSome = true by decide)
  have hevents : (Transition.run (Rpc.step plainEnvironment bidiOptions) startedBidi
      conversation).map (fun rpc => decide (.messageReceived [42] ∈ rpc.trace) &&
        decide (.finished {} ∈ rpc.trace)) = some true := by decide
  rw [hrun, Option.map_some, Option.some.injEq, Bool.and_eq_true, decide_eq_true_iff,
    decide_eq_true_iff] at hevents
  exact ⟨final, hrun, hevents.1, hevents.2,
    (silentAfterFinished_iff plainEnvironment bidiOptions startedBidi final conversation
      (.constructed [] none) hrun).mpr (by decide)⟩

/-- A run reports success only behind trailers that announce it exactly if no step of it ends an
unfinished RPC because the data stream ended with nothing buffered. -/
theorem okNeedsTrailers_iff (env : Environment) (options : HandlerOptions) (start final : Rpc)
    (inputs : List Input) (hstart : Rpc.Starts options start)
    (hrun : Transition.run (Rpc.step env options) start inputs = some final) :
    OkNeedsTrailers env final.trace ↔
      Transition.Along (Rpc.step env options)
        (fun rpc input => ¬ rpc.finishesOnEndStream input = true) start inputs := by
  have hending := Rpc.starts_ending env options start hstart
  have hok : OkNeedsTrailers env start.trace := by
    cases hstart with
    | constructed data compressed =>
      exact (Rpc.constructed_effect env options data compressed).okNeedsTrailers
        (by simp [Rpc.finishesOnEndStream]) (by simp [OkNeedsTrailers, Rpc.fresh])
    | turnedDown status h => simp [OkNeedsTrailers, Rpc.fresh]
  constructor
  · intro hfinal
    refine Transition.along_of_run _ _ (Rpc.Ending env)
      (fun rpc => Rpc.Ending env rpc ∧ ¬ OkNeedsTrailers env rpc.trace)
      (fun rpc input next h _ => Rpc.step_ending env options rpc next input h)
      (fun rpc input next h hcondition hstep => ?_)
      (fun rpc input next h hstep => ?_) start final inputs hending hrun (fun h => h.2 hfinal)
    · exact ⟨Rpc.step_ending env options rpc next input h hstep,
        Rpc.finishesOnEndStream_breaks env options rpc next input h (not_not.mp hcondition) hstep⟩
    · refine ⟨Rpc.step_ending env options rpc next input h.1 hstep, fun hnext => h.2 ?_⟩
      obtain ⟨events, htrace⟩ := Rpc.step_trace env options rpc next input h.1 hstep
      exact (htrace ▸ hnext).of_append
  · intro halong
    refine (Transition.run_invariant_along _ _
      (fun rpc => Rpc.Ending env rpc ∧ OkNeedsTrailers env rpc.trace)
      (fun rpc input next h hcondition hstep => ?_) start final inputs ⟨hending, hok⟩ halong
      hrun).2
    exact ⟨Rpc.step_ending env options rpc next input h.1 hstep,
      (Rpc.step_effect env options rpc next input h.1.tracked hstep).okNeedsTrailers hcondition
        h.2⟩

/-- After the response headers the server ends the data stream without trailers. -/
def endedWithoutTrailers : List Input := answered ++ [.dataReceived [] true, .resume []]

/-- The RPC is reported as a success although no trailers were received. -/
theorem not_okNeedsTrailers_endedWithoutTrailers :
    ∃ final, Transition.run (Rpc.step plainEnvironment bidiOptions) startedBidi
      endedWithoutTrailers = some final ∧ ¬ OkNeedsTrailers plainEnvironment final.trace := by
  obtain ⟨final, hrun⟩ := Option.isSome_iff_exists.mp
    (show (Transition.run (Rpc.step plainEnvironment bidiOptions) startedBidi
      endedWithoutTrailers).isSome = true by decide)
  have htrace : (Transition.run (Rpc.step plainEnvironment bidiOptions) startedBidi
      endedWithoutTrailers).map (fun rpc => rpc.trace) =
        some [.writeMessage [0, 0, 0, 0, 0], .attachStream, .sendHEADERS,
          .sendDATA [0, 0, 0, 0, 0] false, .uploadStarted, .uploadEnded,
          .headers .initial [(ascii ":status", ascii "200"),
            (ascii "content-type", ascii "application/grpc")],
          .serverInitialMetadataReceived [], .finished {}] := by decide
  rw [hrun, Option.map_some, Option.some.injEq] at htrace
  refine ⟨final, hrun, fun hok => ?_⟩
  obtain ⟨phase, headers, hmem, hphase, -⟩ := hok _ _ [] (htrace.trans
    (List.dropLast_concat_getLast (by simp)).symm) rfl
  simp at hmem
  exact hphase hmem.1

/-- A conversation that ends with trailers meets the condition, so that its success is announced. -/
theorem okNeedsTrailers_iff_conversation :
    ∃ final, Transition.run (Rpc.step plainEnvironment bidiOptions) startedBidi conversation =
        some final ∧ .finished {} ∈ final.trace ∧ OkNeedsTrailers plainEnvironment final.trace := by
  obtain ⟨final, hrun⟩ := Option.isSome_iff_exists.mp
    (show (Transition.run (Rpc.step plainEnvironment bidiOptions) startedBidi
      conversation).isSome = true by decide)
  have hfinished : (Transition.run (Rpc.step plainEnvironment bidiOptions) startedBidi
      conversation).map (fun rpc => decide (.finished {} ∈ rpc.trace)) = some true := by decide
  rw [hrun, Option.map_some, Option.some.injEq, decide_eq_true_iff] at hfinished
  exact ⟨final, hrun, hfinished,
    (okNeedsTrailers_iff plainEnvironment bidiOptions startedBidi final conversation
      (.constructed [] none) hrun).mpr (by decide)⟩

end QtGrpc.Http2
