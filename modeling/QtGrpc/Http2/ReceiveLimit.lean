import QtGrpc.Http2.Finish
import QtGrpc.Http2.FrameStream
import QtGrpc.Http2.OptionChanges

/-!
# The receive limit

A call fixes its receive limit when its handler is constructed. The data handler compares the
declared length of every frame with it before it buffers the payload, and the output of the
decompressor before it appends to the payload, so nothing above the limit is passed on. Both
rejections finish the call, and a success needs the end of the stream with nothing rejected.
-/

namespace QtGrpc.Http2

open ByteOrder GrpcDataParser

/-- Behind frames within the limit, a stream declares a frame above it. -/
inductive DeclaresOversize (limit : Nat) : Bytes → Prop where
  | here (flag : UInt8) (lengthBytes rest : Bytes) (hlength : lengthBytes.length = 4)
      (habove : limit < ofBigEndian lengthBytes) :
      DeclaresOversize limit (flag :: (lengthBytes ++ rest))
  | later (flag : UInt8) (lengthBytes payload rest : Bytes) (hlength : lengthBytes.length = 4)
      (hpayload : payload.length = ofBigEndian lengthBytes) (hwithin : payload.length ≤ limit)
      (h : DeclaresOversize limit rest) :
      DeclaresOversize limit (flag :: (lengthBytes ++ (payload ++ rest)))

/-- A frame above a limit is above, or behind a frame above, every smaller one. -/
theorem DeclaresOversize.mono {limit smaller : Nat} {stream : Bytes}
    (h : DeclaresOversize limit stream) (hsmaller : smaller ≤ limit) :
    DeclaresOversize smaller stream := by
  induction h with
  | here flag lengthBytes rest hlength habove =>
    exact .here flag lengthBytes rest hlength (by omega)
  | later flag lengthBytes payload rest hlength hpayload hwithin h ih =>
    by_cases hpasses : payload.length ≤ smaller
    · exact .later flag lengthBytes payload rest hlength hpayload hpasses ih
    · exact .here flag lengthBytes _ hlength (by omega)

/-- A buffer that is waiting for more data declares nothing above the limit. -/
theorem DeclaresOversize.not_needMoreData {limit : UInt32} {buffered : Bytes}
    (h : DeclaresOversize limit.toNat buffered) :
    (parseNextFrame ⟨limit, buffered⟩).1 ≠ .error .needMoreData := by
  cases h with
  | here flag lengthBytes rest hlength habove =>
    rw [parseNextFrame_header limit flag lengthBytes rest hlength, if_pos habove]
    simp
  | later flag lengthBytes payload rest hlength hpayload hwithin h =>
    rw [parseNextFrame_header limit flag lengthBytes _ hlength, if_neg (by omega),
      if_neg (by simp; omega)]
    simp

/-- A delivered frame was the front of the buffer. -/
theorem parseNextFrame_split (limit : UInt32) (buffered : Bytes) (frame : Frame)
    (next : GrpcDataParser) (h : parseNextFrame ⟨limit, buffered⟩ = (.ok frame, next)) :
    ∃ flag lengthBytes, lengthBytes.length = 4 ∧
      frame.payload.length = ofBigEndian lengthBytes ∧ frame.payload.length ≤ limit.toNat ∧
      next.maxReceiveSize = limit ∧
      buffered = flag :: (lengthBytes ++ (frame.payload ++ next.container)) := by
  have hsize := (parseNextFrame_ok _ _ _ h).2.2
  simp only [bytesAvailable, GrpcMessageSizeHeaderSize] at hsize
  obtain ⟨flag, rest, rfl⟩ : ∃ flag rest, buffered = flag :: rest :=
    List.exists_cons_of_ne_nil (by rintro rfl; simp at hsize; omega)
  obtain ⟨lengthBytes, rest, rfl, hlength⟩ : ∃ lengthBytes tail,
      rest = lengthBytes ++ tail ∧ lengthBytes.length = 4 :=
    ⟨rest.take 4, rest.drop 4, by simp, by simp at hsize ⊢; omega⟩
  rw [parseNextFrame_header limit flag lengthBytes rest hlength] at h
  split at h
  · cases h
  split at h
  · cases h
  rename_i hlimit hcomplete
  cases h
  refine ⟨flag, lengthBytes, hlength, ?_, ?_, rfl, by simp⟩
  · simp
    omega
  · simp
    omega

/-- Taking a frame from the buffer keeps what the stream declares behind it. -/
theorem DeclaresOversize.drop {limit : UInt32} {buffered later : Bytes} {frame : Frame}
    {next : GrpcDataParser} (hparse : parseNextFrame ⟨limit, buffered⟩ = (.ok frame, next))
    (h : DeclaresOversize limit.toNat (buffered ++ later)) :
    DeclaresOversize limit.toNat (next.container ++ later) := by
  obtain ⟨flag, lengthBytes, hlength, hpayload, hwithin, -, rfl⟩ :=
    parseNextFrame_split limit buffered frame next hparse
  generalize hstream : flag :: (lengthBytes ++ (frame.payload ++ next.container)) ++ later =
    stream at h
  simp only [List.cons_append, List.append_assoc] at hstream
  cases h with
  | here flag' lengthBytes' rest hlength' habove =>
    obtain ⟨-, htail⟩ := List.cons.inj hstream
    obtain ⟨rfl, -⟩ := List.append_inj htail (by omega)
    omega
  | later flag' lengthBytes' payload rest hlength' hpayload' hwithin' h =>
    obtain ⟨-, htail⟩ := List.cons.inj hstream
    obtain ⟨rfl, hbody⟩ := List.append_inj htail (by omega)
    obtain ⟨-, rfl⟩ := List.append_inj hbody (by omega)
    exact h

/-- What the decompressor hands out within the limit stays within it. -/
theorem Rpc.decompress_length (maxReceiveSize : UInt32) (finalPayload payload : Bytes)
    (reads : List ReadResult) (hwithin : finalPayload.length ≤ maxReceiveSize.toNat)
    (h : Rpc.decompress maxReceiveSize finalPayload reads = .ok payload) :
    payload.length ≤ maxReceiveSize.toNat := by
  induction reads generalizing finalPayload with
  | nil =>
    cases h
    exact hwithin
  | cons read reads ih =>
    cases read with
    | error errorString => cases h
    | ok buffer =>
      rw [Rpc.decompress] at h
      split at h
      · cases h
      · exact ih (finalPayload ++ buffer) (by simp; omega) h

/-- The size of what a sequence of reads yields up to its first error. -/
def decompressedSize : List ReadResult → Nat
  | [] => 0
  | .error _ :: _ => 0
  | .ok buffer :: reads => buffer.length + decompressedSize reads

/-- Output above the limit is rejected. -/
theorem Rpc.decompress_above (maxReceiveSize : UInt32) (finalPayload : Bytes)
    (reads : List ReadResult)
    (habove : maxReceiveSize.toNat < finalPayload.length + decompressedSize reads)
    (hwithin : finalPayload.length ≤ maxReceiveSize.toNat) :
    ∃ status, Rpc.decompress maxReceiveSize finalPayload reads = .error status := by
  induction reads generalizing finalPayload with
  | nil =>
    simp only [decompressedSize] at habove
    omega
  | cons read reads ih =>
    cases read with
    | error errorString => exact ⟨_, rfl⟩
    | ok buffer =>
      rw [Rpc.decompress]
      split
      · exact ⟨_, rfl⟩
      · simp only [decompressedSize] at habove
        exact ih (finalPayload ++ buffer) (by simp; omega) (by simp; omega)

/-- The bytes an input takes from the stream. -/
def Input.data : Input → Bytes
  | .dataReceived data _ => data
  | _ => []

/-- The input is a frame of the stream. -/
def Input.fromStream : Input → Bool
  | .headersReceived _ _ | .dataReceived _ _ => true
  | _ => false

/-- The input is the last frame of the stream. -/
def Input.endsStream : Input → Bool
  | .headersReceived _ endStream | .dataReceived _ endStream => endStream
  | _ => false

/-- No frame follows the last one of the stream. -/
def EndsOnce (inputs : List Input) : Prop :=
  inputs.Pairwise fun i j => i.endsStream = true → j.fromStream = false

instance (inputs : List Input) : Decidable (EndsOnce inputs) :=
  inferInstanceAs (Decidable (List.Pairwise _ _))

/-- No success was signalled. -/
def NeverOk (trace : List Event) : Prop :=
  ∀ status : QGrpcStatus, .finished status ∈ trace → status.code ≠ .ok

/-- What is not signalled signals no success. -/
theorem NeverOk.append {trace quiet : List Event} (h : NeverOk trace)
    (hquiet : ∀ e ∈ quiet, e.signalled = false) : NeverOk (trace ++ quiet) := by
  intro status hmem
  rcases List.mem_append.mp hmem with hmem | hmem
  · exact h status hmem
  · cases hquiet _ hmem

/-- The code of the data handler. -/
def Continuation.receives : Continuation → Bool
  | .dataReceived _ => true
  | _ => false

namespace Rpc

/-- The data handlers in flight. -/
def dataLoops (rpc : Rpc) : List Continuation := rpc.stack.filter Continuation.receives

/-- The payload a step passes to `QGrpcOperationContext::messageReceived`. -/
def passedPayload (rpc : Rpc) : Input → Option Bytes
  | .resume reads =>
    match rpc.stack, rpc.grpcDataParser.parseNextFrame with
    | .dataReceived _ :: _, (.ok frame, _) => (rpc.framePayload frame reads).toOption
    | _, _ => none
  | _ => none

/-- The size to which a step decompresses a frame, up to the first error of the decompressor. -/
def inflatedSize (rpc : Rpc) : Input → Nat
  | .resume reads =>
    match rpc.stack, rpc.grpcDataParser.parseNextFrame with
    | .dataReceived _ :: _, (.ok frame, _) =>
      if frame.isCompressed ∧ rpc.decompressor ∧ ¬ rpc.negotiatedEncoding.isEmpty then
        decompressedSize reads
      else 0
    | _, _ => 0
  | _ => 0

/-- What all code but the data handler keeps of the reception. -/
structure Beside (rpc next : Rpc) : Prop where
  parser : next.grpcDataParser = rpc.grpcDataParser
  loops : next.dataLoops = rpc.dataLoops
  context : rpc.context = false → next.context = false
  finished : rpc.operationFinished = true → next.operationFinished = true
  ended : next.state.ended = true →
    rpc.state.ended = true ∨ next.operationFinished = true ∨ next.context = false

/-- Standing still keeps the reception. -/
theorem Beside.refl (rpc : Rpc) : Beside rpc rpc := ⟨rfl, rfl, id, id, .inl⟩

/-- Code that keeps the reception composes. -/
theorem Beside.trans {a b c : Rpc} (hab : Beside a b) (hbc : Beside b c) : Beside a c where
  parser := hbc.parser.trans hab.parser
  loops := hbc.loops.trans hab.loops
  context h := hbc.context (hab.context h)
  finished h := hbc.finished (hab.finished h)
  ended h := by
    rcases hbc.ended h with h | h
    · exact (hab.ended h).imp_right fun h => h.imp hbc.finished hbc.context
    · exact .inr h

/-- A step that leaves alone what counts. -/
theorem Beside.of_eq {rpc next : Rpc} (hparser : next.grpcDataParser = rpc.grpcDataParser)
    (hstack : next.stack = rpc.stack) (hcontext : next.context = rpc.context)
    (hfinished : next.operationFinished = rpc.operationFinished)
    (hstate : next.state.ended = true → rpc.state.ended = true) : Beside rpc next :=
  ⟨hparser, by rw [dataLoops, dataLoops, hstack], by rw [hcontext]; exact id,
    by rw [hfinished]; exact id, fun h => .inl (hstate h)⟩

/-- A step that only moves other code on or off the stack. -/
theorem Beside.of_loops {rpc next : Rpc} (hparser : next.grpcDataParser = rpc.grpcDataParser)
    (hloops : next.dataLoops = rpc.dataLoops) (hcontext : next.context = rpc.context)
    (hfinished : next.operationFinished = rpc.operationFinished)
    (hstate : next.state = rpc.state) : Beside rpc next :=
  ⟨hparser, hloops, by rw [hcontext]; exact id, by rw [hfinished]; exact id,
    by rw [hstate]; exact .inl⟩

/-- An event that is put down keeps the reception. -/
theorem Beside.emit {rpc next : Rpc} (h : Beside rpc next) (e : Event) :
    Beside rpc (next.emit e) := h.trans (.of_eq rfl rfl rfl rfl id)

/-- Code that does not receive may be put on the stack. -/
theorem Beside.push {rpc next : Rpc} (h : Beside rpc next) {code : List Continuation}
    (hcode : code.filter Continuation.receives = []) : Beside rpc (next.push code) :=
  h.trans (.of_loops rfl (by simp [dataLoops, Rpc.push, hcode]) rfl rfl rfl)

/-- The end of the context keeps the reception. -/
theorem contextFinished_beside (rpc : Rpc) (status : QGrpcStatus) {after : List Continuation}
    (hafter : after.filter Continuation.receives = []) :
    Beside rpc (rpc.contextFinished status after) := by
  unfold contextFinished
  split
  · exact (Beside.refl rpc).push hafter
  · refine Beside.push (Beside.emit ?_ _) (by simp [Continuation.receives, hafter])
    exact ⟨rfl, rfl, id, fun _ => rfl, .inl⟩

/-- After the end of the context the operation has finished. -/
theorem contextFinished_finished (rpc : Rpc) (status : QGrpcStatus) (after : List Continuation) :
    (rpc.contextFinished status after).operationFinished = true := by
  unfold contextFinished
  split
  · assumption
  · rfl

/-- A step that ends the handler on its way is beside the reception once the operation has
finished. -/
theorem Beside.settled {rpc mid next : Rpc} (h : Beside mid next)
    (hparser : mid.grpcDataParser = rpc.grpcDataParser) (hstack : mid.stack = rpc.stack)
    (hcontext : mid.context = rpc.context)
    (hfinished : mid.operationFinished = rpc.operationFinished)
    (hsettled : next.operationFinished = true ∨ next.context = false) : Beside rpc next where
  parser := h.parser.trans hparser
  loops := h.loops.trans (by rw [dataLoops, dataLoops, hstack])
  context hclosed := h.context (hcontext.trans hclosed)
  finished hdone := h.finished (hfinished.trans hdone)
  ended _ := .inr hsettled

/-- Finishing keeps the reception. -/
theorem finish_beside (rpc : Rpc) (status : QGrpcStatus) : Beside rpc (rpc.finish status) := by
  unfold finish
  split
  · rename_i hcontext
    exact ⟨rfl, rfl, id, id, fun _ => .inr (.inr (by simpa using hcontext))⟩
  · split
    · exact .refl rpc
    · refine (contextFinished_beside _ status (by rfl)).settled rfl rfl rfl rfl (.inl ?_)
      exact contextFinished_finished _ _ _

/-- Behind `finish` the operation has finished or its context is gone, unless the handler had
finished before. -/
theorem finish_settles (rpc : Rpc) (status : QGrpcStatus) (hstate : rpc.state ≠ .finished) :
    (rpc.finish status).operationFinished = true ∨ rpc.context = false := by
  unfold finish
  split
  · rename_i hcontext
    exact .inr (by simpa using hcontext)
  · exact .inl (contextFinished_finished _ _ _)

/-- Queueing the end keeps the reception. -/
theorem asyncFinish_beside (rpc : Rpc) (status : QGrpcStatus) :
    Beside rpc (rpc.asyncFinish status) := by
  unfold asyncFinish
  split
  · rename_i hcontext
    exact ⟨rfl, rfl, id, id, fun _ => .inr (.inr (by simpa using hcontext))⟩
  · exact .of_eq rfl rfl rfl rfl id

/-- Cancelling keeps the reception. -/
theorem cancelWithStatus_beside (rpc : Rpc) (status : QGrpcStatus) :
    Beside rpc (rpc.cancelWithStatus status) := by
  have hfinish (cancelled : Rpc) (hparser : cancelled.grpcDataParser = rpc.grpcDataParser)
      (hstack : cancelled.stack = rpc.stack) (hcontext : cancelled.context = rpc.context)
      (hfinished : cancelled.operationFinished = rpc.operationFinished)
      (hstate : cancelled.state = .cancelled) : Beside rpc (cancelled.finish status) := by
    have hbeside := finish_beside cancelled status
    refine hbeside.settled hparser hstack hcontext hfinished ?_
    exact (finish_settles cancelled status (by rw [hstate]; simp)).imp_right hbeside.context
  unfold cancelWithStatus
  split
  · exact .refl rpc
  · dsimp only
    split
    · split
      · exact hfinish _ rfl rfl rfl rfl rfl
      · exact hfinish _ rfl rfl rfl rfl rfl
    · exact hfinish _ rfl rfl rfl rfl rfl

/-- Sending the next message keeps the reception. -/
theorem sendNext_beside (endStreamAtFirstData : Bool) (rpc : Rpc) :
    Beside rpc (rpc.sendNext endStreamAtFirstData) := by
  unfold sendNext
  split
  · exact .refl rpc
  · refine Beside.push (Beside.emit ?_ _) (by rfl)
    exact .of_eq rfl rfl rfl rfl id

/-- Processing the queue keeps the reception. -/
theorem processQueue_beside (endStreamAtFirstData : Bool) (rpc : Rpc) :
    Beside rpc (rpc.processQueue endStreamAtFirstData) := by
  unfold processQueue
  split
  · exact .refl rpc
  · split
    · exact .refl rpc
    · split
      · exact .refl rpc
      · split
        · exact .refl rpc
        · refine Beside.trans (Beside.push ?_ (by rfl)) (sendNext_beside _ _)
          exact .of_eq rfl rfl rfl rfl id

/-- Writing a message keeps the reception. -/
theorem writeMessage_beside (options : HandlerOptions) (rpc : Rpc) (data : Bytes)
    (compressed : Option Bytes) : Beside rpc (rpc.writeMessage options data compressed) := by
  unfold writeMessage
  split
  · exact .refl rpc
  · split
    · exact finish_beside rpc _
    · refine Beside.trans (Beside.emit ?_ _) (processQueue_beside _ _)
      exact .of_eq rfl rfl rfl rfl id

/-- The end of the writes keeps the reception. -/
theorem writesDone_beside (options : HandlerOptions) (rpc : Rpc) :
    Beside rpc (rpc.writesDone options) := by
  unfold writesDone
  split
  · exact .refl rpc
  · dsimp only
    split
    · exact .of_eq rfl rfl rfl rfl id
    · refine Beside.trans (Beside.emit ?_ _) (processQueue_beside _ _)
      exact .of_eq rfl rfl rfl rfl id

/-- Sending the request keeps the reception. -/
theorem sendInitialRequest_beside (options : HandlerOptions) (rpc : Rpc) (sendHEADERS : Bool) :
    Beside rpc (rpc.sendInitialRequest options sendHEADERS) := by
  unfold sendInitialRequest
  split
  · exact .refl rpc
  · split
    · exact asyncFinish_beside rpc _
    · refine Beside.trans (Beside.push (Beside.emit ?_ _) (by rfl)) (processQueue_beside _ _)
      exact .of_eq rfl rfl rfl rfl (by simp [State.ended])

/-- Dropping the stream keeps the reception. -/
theorem dropStream_beside (rpc : Rpc) : Beside rpc rpc.dropStream := by
  unfold dropStream
  split
  · split
    · refine Beside.emit ?_ _
      exact .of_eq rfl rfl rfl rfl id
    · exact .of_eq rfl rfl rfl rfl id
  · exact .refl rpc

/-- Destroying the handler keeps the reception. -/
theorem destroy_beside (rpc : Rpc) : Beside rpc rpc.destroy := by
  refine Beside.trans ?_ (dropStream_beside _)
  exact .of_eq rfl rfl rfl rfl id

/-- The end of an upload keeps the reception. -/
theorem uploadFinished_beside (options : HandlerOptions) (rpc : Rpc) :
    Beside rpc (rpc.uploadFinished options) := by
  unfold uploadFinished
  extract_lets scheduled
  have hscheduled : Beside rpc scheduled := by
    unfold scheduled
    split <;> exact .of_eq rfl rfl rfl rfl id
  split
  · exact hscheduled
  · exact hscheduled.trans (processQueue_beside _ _)

/-- Headers keep the reception. -/
theorem headersReceived_beside (env : Environment) (options : HandlerOptions) (rpc : Rpc)
    (headers : HttpHeader) (endStream : Bool) :
    Beside rpc (rpc.headersReceived env options headers endStream) := by
  unfold headersReceived
  split
  · exact .of_eq rfl rfl rfl rfl id
  split
  · exact .refl rpc
  dsimp only
  split
  · rename_i hcontext
    exact ⟨rfl, rfl, id, id, fun _ => .inr (.inr (by simpa using hcontext))⟩
  split
  · refine Beside.trans (Beside.emit ?_ _) (finish_beside _ _)
    exact .of_eq rfl rfl rfl rfl (by simp [State.ended])
  · refine Beside.push (Beside.emit (Beside.emit ?_ _) _) (by rfl)
    exact .of_eq rfl rfl rfl rfl (by simp [State.ended])
  · refine Beside.trans (Beside.emit ?_ _) (finish_beside _ _)
    exact .of_eq rfl rfl rfl rfl (by simp [State.ended])

/-- Code that is not the data handler leaves the stack. -/
theorem pop_beside {rpc : Rpc} {code : Continuation} {rest : List Continuation}
    (hstack : rpc.stack = code :: rest) (hcode : code.receives = false) :
    Beside rpc { rpc with stack := rest } :=
  .of_loops rfl (by simp [dataLoops, hstack, hcode]) rfl rfl rfl

/-- Every step of what is on the stack but the data handler keeps the reception. -/
theorem resume_beside (options : HandlerOptions) (rpc next : Rpc) (reads : List ReadResult)
    (hother : ∀ endStream rest, rpc.stack ≠ .dataReceived endStream :: rest)
    (hstep : rpc.resume options reads = some next) : Beside rpc next := by
  unfold resume at hstep
  split at hstep
  · rename_i rest hstack
    cases hstep
    exact (pop_beside hstack rfl).trans (.of_eq rfl rfl rfl rfl id)
  · rename_i endStream rest hstack
    exact absurd hstack (hother endStream rest)
  · rename_i rest hstack
    split at hstep
    · cases hstep
    · split at hstep <;> cases hstep
      · exact sendNext_beside _ rpc
      · exact (pop_beside hstack rfl).trans (.of_eq rfl rfl rfl rfl id)
  · rename_i rest hstack
    cases hstep
    exact (pop_beside hstack rfl).trans (.of_eq rfl rfl rfl rfl id)
  · rename_i rest hstack
    cases hstep
    split
    · exact (pop_beside hstack rfl).trans (cancelWithStatus_beside _ _)
    · exact pop_beside hstack rfl
  · rename_i rest hstack
    cases hstep
    exact (pop_beside hstack rfl).trans (dropStream_beside _)
  · rename_i rest hstack
    cases hstep
    exact (pop_beside hstack rfl).trans (destroy_beside _)
  · cases hstep

/-- Only the data handler touches the reception. -/
theorem step_beside (env : Environment) (options : HandlerOptions) (rpc next : Rpc) (input : Input)
    (hdata : ∀ data endStream, input ≠ .dataReceived data endStream)
    (hloop : ∀ reads endStream rest, input = .resume reads →
      rpc.stack ≠ .dataReceived endStream :: rest)
    (hstep : step env options rpc input = some next) : Beside rpc next := by
  cases input <;> simp only [step] at hstep
  case headersReceived headers endStream =>
    split at hstep <;> cases hstep
    exact headersReceived_beside env options rpc headers endStream
  case dataReceived data endStream => exact absurd rfl (hdata data endStream)
  case errorOccurred code text =>
    split at hstep
    · cases hstep
    · split at hstep
      · cases hstep
      · split at hstep <;> cases hstep
        · exact .refl rpc
        · refine Beside.trans ?_ (finish_beside _ _)
          exact .of_eq rfl rfl rfl rfl id
  case bytesWritten bytes =>
    split at hstep <;> cases hstep
    exact .of_eq rfl rfl rfl rfl id
  case uploadFinished =>
    split at hstep
    · cases hstep
    · split at hstep <;> cases hstep
      refine Beside.trans (Beside.emit ?_ _) (uploadFinished_beside options _)
      exact .of_eq rfl rfl rfl rfl id
  case uploadDropped =>
    split at hstep
    · cases hstep
    · split at hstep <;> cases hstep
      refine Beside.emit ?_ _
      exact .of_eq rfl rfl rfl rfl id
  case streamStateChanged state =>
    obtain ⟨stream, -, rfl⟩ := Option.map_eq_some_iff.mp hstep
    exact .of_eq rfl rfl rfl rfl id
  case sendDATAAccepted =>
    split at hstep <;> cases hstep
    rename_i hstack _
    refine Beside.emit ?_ _
    exact .of_loops rfl (by simp [dataLoops, hstack, Continuation.receives]) rfl rfl rfl
  case sendDATARefused =>
    split at hstep <;> cases hstep
    rename_i hstack
    exact .of_loops rfl (by simp [dataLoops, hstack, Continuation.receives]) rfl rfl rfl
  case sendDATAReturned =>
    split at hstep <;> cases hstep
    rename_i hstack
    exact pop_beside hstack rfl
  case attachStream =>
    split at hstep <;> cases hstep
    refine Beside.emit ?_ _
    exact .of_eq rfl rfl rfl rfl id
  case createStreamFailed error =>
    split at hstep <;> cases hstep
    exact asyncFinish_beside rpc _
  case sendInitialRequest sendHEADERS =>
    split at hstep <;> cases hstep
    exact sendInitialRequest_beside options rpc sendHEADERS
  case socketError errorCode =>
    split at hstep
    · cases hstep
    · split at hstep <;> cases hstep
      · exact destroy_beside rpc
      · exact ((Beside.refl rpc).push (by rfl)).trans (finish_beside _ _)
  case connectionDeleted =>
    split at hstep <;> cases hstep
    exact dropStream_beside rpc
  case channelDestroyed =>
    split at hstep
    · cases hstep
    · split at hstep <;> cases hstep
      · refine Beside.trans (Beside.push ?_ (by rfl)) (finish_beside _ _)
        exact .of_eq rfl rfl rfl rfl id
      · refine Beside.trans ?_ (destroy_beside _)
        exact .of_eq rfl rfl rfl rfl id
  case writeMessage data compressed =>
    split at hstep <;> cases hstep
    split
    · exact writeMessage_beside options rpc data compressed
    · exact .refl rpc
  case writeUnserializable messageTooLarge lastErrorString =>
    split at hstep <;> cases hstep
    split
    · exact contextFinished_beside rpc _ (by rfl)
    · exact .refl rpc
  case writesDone =>
    split at hstep <;> cases hstep
    split
    · exact writesDone_beside options rpc
    · exact .refl rpc
  case cancel =>
    split at hstep <;> cases hstep
    unfold cancel
    split
    · exact .refl rpc
    · exact cancelWithStatus_beside rpc _
  case slotReturned =>
    split at hstep <;> cases hstep
    rename_i hstack
    exact pop_beside hstack rfl
  case resume reads =>
    exact resume_beside options rpc next reads (fun endStream rest => hloop reads endStream rest rfl)
      hstep
  case deadlineTimeout =>
    split at hstep <;> cases hstep
    refine Beside.trans ?_ (cancelWithStatus_beside _ _)
    exact .of_eq rfl rfl rfl rfl id
  case callback callback =>
    have htaken : Beside rpc { rpc with pending := rpc.pending.erase callback } :=
      .of_eq rfl rfl rfl rfl id
    split at hstep
    · cases hstep
    cases callback with
    | messageWritten =>
      simp only at hstep
      split at hstep
      · cases hstep
      · split at hstep <;> cases hstep
        · exact (htaken.emit _).push (by rfl)
        · exact htaken
    | asyncFinish status =>
      simp only at hstep
      split at hstep <;> cases hstep
      exact htaken.trans (finish_beside _ status)
    | contextFinished status =>
      simp only at hstep
      split at hstep <;> cases hstep
      exact htaken.trans (contextFinished_beside _ status (by rfl))
  case deferredDelete =>
    split at hstep <;> cases hstep
    exact destroy_beside rpc
  case contextDestroyed =>
    split at hstep <;> cases hstep
    exact ⟨rfl, rfl, fun _ => rfl, id, .inl⟩

/-- Without numbers in the headers nothing announces a success. -/
theorem not_announcesOk_of_toShort {env : Environment} (htoShort : env.toShort = fun _ => none)
    (trace : List Event) : ¬ AnnouncesOk env trace := by
  rintro ⟨phase, headers, -, -, hstatus⟩
  rw [grpcStatus, htoShort] at hstatus
  simp at hstatus

/-- Only header blocks are read with the help of the environment. -/
theorem step_env (env other : Environment) (options : HandlerOptions) (rpc : Rpc) (input : Input)
    (hinput : ∀ headers endStream, input ≠ .headersReceived headers endStream) :
    step env options rpc input = step other options rpc input := by
  cases input with
  | headersReceived headers endStream => exact absurd rfl (hinput headers endStream)
  | _ => rfl

/-- Trailers are the last frame of the stream. -/
theorem headerPhase_endStream {state : State} {endStream : Bool} {phase : HeaderPhase}
    (h : headerPhase state endStream = some phase) (hphase : phase ≠ .initial) :
    endStream = true := by
  unfold headerPhase at h
  split at h <;> simp_all

/-- A step whose signals are no success reports none. -/
theorem Effect.neverOk {admits : List Event → Event → Prop} {rpc next : Rpc}
    (heffect : Effect admits rpc next) (h : NeverOk rpc.trace)
    (hadmits : ∀ (quiet : List Event) (status : QGrpcStatus),
      admits quiet (.finished status) → status.code ≠ .ok) : NeverOk next.trace := by
  rcases heffect with ⟨quiet, htrace, hquiet, -⟩ | ⟨quiet, e, htrace, hquiet, -, hadmitted, -⟩
  · rw [htrace]
    exact h.append fun e he => Event.signalled_of_transport (hquiet e he)
  · rw [htrace]
    intro status hmem
    rcases List.mem_append.mp hmem with hmem | hmem
    · exact h.append (fun e he => (hquiet e he).1) status hmem
    · obtain rfl : e = .finished status := (List.mem_singleton.mp hmem).symm
      exact hadmits quiet status hadmitted

/-- Finishing with an error signals no success. -/
theorem finish_neverOk {rpc : Rpc} {status : QGrpcStatus} (hstatus : status.code ≠ .ok)
    (h : NeverOk rpc.trace) : NeverOk (rpc.finish status).trace := by
  refine (finish_fails rpc status hstatus).neverOk h fun quiet other hfails => ?_
  obtain ⟨-, failure, hfailure, heq⟩ := hfails
  obtain rfl : other = failure := by simpa using heq
  exact hfailure

/-- A header block that reports success is the last frame of the stream, and its context lives. -/
theorem headersReceived_neverOk (env : Environment) (options : HandlerOptions) (rpc : Rpc)
    (headers : HttpHeader) (endStream : Bool) (h : NeverOk rpc.trace)
    (hfails : endStream = false ∨ rpc.context = false) :
    NeverOk (rpc.headersReceived env options headers endStream).trace := by
  unfold headersReceived
  split
  · exact h
  split
  · exact h
  rename_i phase hphase
  dsimp only
  split
  · exact h
  rename_i hcontext
  have hopen : endStream = false := hfails.resolve_right (by simpa using hcontext)
  have hinitial : phase = .initial := by
    by_contra hne
    rw [headerPhase_endStream hphase hne] at hopen
    cases hopen
  have hheaders : NeverOk (rpc.trace ++ [.headers phase headers]) := h.append (by simp [Event.signalled])
  split
  · rename_i status houtcome
    exact finish_neverOk (handleHeaders_finish_ne_ok _ _ _ _ _ _ _ houtcome) hheaders
  · intro status hmem
    rcases List.mem_append.mp hmem with hmem | hmem
    · exact hheaders status hmem
    · simp at hmem
  · rename_i metadata status houtcome
    exact absurd hinitial (handleHeaders_trailingMetadata _ _ _ _ _ _ _ _ houtcome).1

/-- A step reports success with a last block of headers, or at the end of the data stream. -/
theorem step_neverOk (env : Environment) (options : HandlerOptions) (rpc next : Rpc)
    (input : Input) (htracked : Tracked rpc) (h : NeverOk rpc.trace)
    (hheaders : ∀ headers, input = .headersReceived headers true → rpc.context = false)
    (hend : rpc.finishesOnEndStream input = false)
    (hstep : step env options rpc input = some next) : NeverOk next.trace := by
  by_cases hinput : ∃ headers endStream, input = .headersReceived headers endStream
  · obtain ⟨headers, endStream, rfl⟩ := hinput
    simp only [step] at hstep
    split at hstep <;> cases hstep
    refine headersReceived_neverOk env options rpc headers endStream h ?_
    cases endStream with
    | false => exact .inl rfl
    | true => exact .inr (hheaders headers rfl)
  · rw [step_env env { env with toShort := fun _ => none } options rpc input
      fun headers endStream heq => hinput ⟨headers, endStream, heq⟩] at hstep
    refine (step_effect _ options rpc next input htracked hstep).neverOk h
      fun quiet status hadmits hok => ?_
    rcases hadmits.2 hok with hannounces | hfinishes
    · exact not_announcesOk_of_toShort rfl quiet hannounces
    · rw [hend] at hfinishes
      cases hfinishes

/-! ## What is passed on -/

/-- A signalled payload was passed on by the step. -/
theorem step_messageReceived {env : Environment} {options : HandlerOptions} {rpc next : Rpc}
    {input : Input} {payload : Bytes} (htracked : Tracked rpc)
    (hstep : step env options rpc input = some next)
    (hmem : .messageReceived payload ∈ next.trace) :
    .messageReceived payload ∈ rpc.trace ∨ rpc.passedPayload input = some payload := by
  rcases step_effect env options rpc next input htracked hstep with
    ⟨quiet, htrace, hquiet, -⟩ | ⟨quiet, e, htrace, hquiet, -, hadmits, -⟩
  · rw [htrace] at hmem
    rcases List.mem_append.mp hmem with hmem | hmem
    · exact .inl hmem
    · cases hquiet _ hmem
  · have hsplit : .messageReceived payload ∈ rpc.trace ∨ .messageReceived payload = e := by
      rw [htrace] at hmem
      rcases List.mem_append.mp hmem with hmem | hmem
      · rcases List.mem_append.mp hmem with hmem | hmem
        · exact .inl hmem
        · cases (hquiet _ hmem).1
      · exact .inr (List.mem_singleton.mp hmem)
    rcases hsplit with hmem' | rfl
    · exact .inl hmem'
    · obtain ⟨reads, endStream, rest, frame, parser, passed, rfl, hstack, hparse, hpayload, htrace⟩ :=
        deliversFrame_step hadmits hstep
      rw [htrace] at hmem
      rcases List.mem_append.mp hmem with hmem | hmem
      · exact .inl hmem
      · obtain rfl : payload = passed := by simpa using hmem
        exact .inr (by simp [passedPayload, hstack, hparse, hpayload, Except.toOption])

/-- What is passed on is within the limit of the parser. -/
theorem passedPayload_length {rpc : Rpc} {input : Input} {payload : Bytes}
    (h : rpc.passedPayload input = some payload) :
    payload.length ≤ rpc.grpcDataParser.maxReceiveSize.toNat := by
  unfold passedPayload at h
  split at h
  · split at h
    · rename_i frame parser _ hparse
      have hwithin := (parseNextFrame_ok _ _ _ hparse).2.1
      unfold framePayload at h
      split at h
      · split at h
        · cases h
        · rename_i hstack hframe hcompressed hdecompressor
          cases hresult : decompress rpc.grpcDataParser.maxReceiveSize [] _ with
          | error status =>
            rw [hresult] at h
            cases h
          | ok result =>
            rw [hresult] at h
            cases h
            exact decompress_length _ [] payload _ (by simp) hresult
      · cases h
        exact hwithin
    · cases h
  · cases h

/-! ## What a rejection leads to -/

/-- The operation has failed, or nobody is left to be told. -/
def Failed (rpc : Rpc) : Prop :=
  NeverOk rpc.trace ∧ (rpc.operationFinished = true ∨ rpc.context = false)

/-- Nothing has been rejected: what the stream declares is still declared by the buffer, which
declares nothing once the data handler has returned. -/
structure Unrejected (limit : UInt32) (received : Bytes) (rpc : Rpc) : Prop where
  neverOk : NeverOk rpc.trace
  buffered : ∀ later, DeclaresOversize limit.toNat (received ++ later) →
    DeclaresOversize limit.toNat (rpc.grpcDataParser.container ++ later)
  drained : rpc.dataLoops = [] → ¬ DeclaresOversize limit.toNat rpc.grpcDataParser.container

/-- The operation has succeeded behind the end of a stream that was received whole. -/
structure Succeeded (limit : UInt32) (received : Bytes) (ended : Bool) (rpc : Rpc) : Prop where
  finished : rpc.operationFinished = true
  ended : ended = true
  loops : rpc.dataLoops = []
  within : ¬ DeclaresOversize limit.toNat received

/-- How the state of an RPC depends on the bytes received and on whether the stream has ended. -/
structure Reception (env : Environment) (limit : UInt32) (received : Bytes) (ended : Bool)
    (rpc : Rpc) : Prop where
  ending : Ending env rpc
  maxReceiveSize : rpc.grpcDataParser.maxReceiveSize = limit
  loops : rpc.dataLoops = [] ∨
    ∃ endStream, rpc.dataLoops = [.dataReceived endStream] ∧ (endStream = true → ended = true)
  closed : rpc.state.ended = true → rpc.operationFinished = true ∨ rpc.context = false
  payloads : ∀ payload, .messageReceived payload ∈ rpc.trace → payload.length ≤ limit.toNat
  outcome : rpc.Failed ∨ rpc.Unrejected limit received ∨ rpc.Succeeded limit received ended

/-- No bytes declare no frame above the limit. -/
theorem not_declaresOversize_nil (limit : Nat) : ¬ DeclaresOversize limit [] := by
  generalize hstream : ([] : Bytes) = stream
  rintro (_ | _) <;> cases hstream

/-- A finished operation stays so. -/
theorem step_operationFinished {env : Environment} {options : HandlerOptions} {rpc next : Rpc}
    {input : Input} (htracked : Tracked rpc) (hstep : step env options rpc input = some next)
    (hfinished : rpc.operationFinished = true) : next.operationFinished = true := by
  rcases step_effect env options rpc next input htracked hstep with
    ⟨_, _, _, hnext⟩ | ⟨_, _, _, _, _, _, hnext⟩
  · rw [hnext, hfinished]
  · rw [hnext, hfinished, Bool.true_or]

/-- The data handler in flight when it resumes. -/
theorem dataLoops_of_top {rpc : Rpc} {endStream : Bool} {rest : List Continuation}
    (hstack : rpc.stack = .dataReceived endStream :: rest) :
    rpc.dataLoops = .dataReceived endStream :: rest.filter Continuation.receives := by
  rw [dataLoops, hstack]
  rfl

/-- A lost context does not come back. -/
theorem step_context {env : Environment} {options : HandlerOptions} {rpc next : Rpc}
    {input : Input} (hstep : step env options rpc input = some next)
    (hcontext : rpc.context = false) : next.context = false := by
  by_cases hdata : ∃ data endStream, input = .dataReceived data endStream
  · obtain ⟨data, endStream, rfl⟩ := hdata
    simp only [step] at hstep
    split at hstep <;> cases hstep
    simp [dataReceived, hcontext]
  by_cases hloop : ∃ reads endStream rest, input = .resume reads ∧
      rpc.stack = .dataReceived endStream :: rest
  · obtain ⟨reads, endStream, rest, rfl, hstack⟩ := hloop
    simp only [step, resume, hstack, Option.some.injEq] at hstep
    rw [← hstep]
    unfold receiveNext messageReceived
    dsimp only
    split
    · split
      · exact hcontext
      · split <;> exact (finish_beside _ _).context hcontext
    · exact (finish_beside _ _).context hcontext
    · split
      · exact (finish_beside _ _).context hcontext
      · split <;> exact hcontext
  · exact (step_beside env options rpc next input (fun data endStream h => hdata ⟨_, _, h⟩)
      (fun reads endStream rest h hstack => hloop ⟨_, _, _, h, hstack⟩) hstep).context hcontext

/-- A failure is final. -/
theorem Failed.step {env : Environment} {options : HandlerOptions} {rpc next : Rpc} {input : Input}
    (h : Failed rpc) (htracked : Tracked rpc) (hstep : step env options rpc input = some next) :
    Failed next := by
  rcases h.2 with hfinished | hcontext
  · refine ⟨?_, .inl (step_operationFinished htracked hstep hfinished)⟩
    refine (step_effect env options rpc next input htracked hstep).neverOk h.1
      fun quiet status hadmits => ?_
    rw [hadmits.1] at hfinished
    cases hfinished
  · refine ⟨step_neverOk env options rpc next input htracked h.1 (fun _ _ => hcontext) ?_ hstep,
      .inr (step_context hstep hcontext)⟩
    unfold finishesOnEndStream
    split
    · split
      · simp [hcontext]
      · rfl
    · rfl

/-- A handler that finishes with an error has failed. -/
theorem finish_failed {rpc : Rpc} {status : QGrpcStatus} (hstatus : status.code ≠ .ok)
    (hnever : NeverOk rpc.trace)
    (hclosed : rpc.state.ended = true → rpc.operationFinished = true ∨ rpc.context = false) :
    Failed (rpc.finish status) := by
  refine ⟨finish_neverOk hstatus hnever, ?_⟩
  by_cases hstate : rpc.state = .finished
  · exact (hclosed (by rw [hstate]; rfl)).imp (finish_beside rpc status).finished
      (finish_beside rpc status).context
  · exact (finish_settles rpc status hstate).imp_right (finish_beside rpc status).context

/-! ## What one step makes of the reception -/

/-- Payloads stay within the limit. -/
theorem Reception.payloads_step {env : Environment} {options : HandlerOptions} {limit : UInt32}
    {received : Bytes} {ended : Bool} {rpc next : Rpc} {input : Input}
    (h : Reception env limit received ended rpc)
    (hstep : step env options rpc input = some next) (payload : Bytes)
    (hmem : .messageReceived payload ∈ next.trace) : payload.length ≤ limit.toNat := by
  rcases step_messageReceived h.ending.tracked hstep hmem with hmem | hpassed
  · exact h.payloads payload hmem
  · rw [← h.maxReceiveSize]
    exact passedPayload_length hpassed

/-- An RPC in which something has been decided keeps what was decided. -/
theorem Reception.decided {env : Environment} {options : HandlerOptions} {limit : UInt32}
    {received : Bytes} {ended : Bool} {rpc next : Rpc} {input : Input}
    (h : Reception env limit received ended rpc) (hinput : input.fromStream = true → ended = false)
    (hstep : step env options rpc input = some next)
    (hdone : rpc.operationFinished = true ∨ rpc.context = false)
    (hloops : rpc.dataLoops = [] → next.dataLoops = [] ∨ ended = false) :
    next.Failed ∨ next.Succeeded limit (received ++ input.data) (ended || input.endsStream) := by
  rcases h.outcome with hfailed | hunrejected | hsucceeded
  · exact .inl (hfailed.step h.ending.tracked hstep)
  · exact .inl (Failed.step ⟨hunrejected.neverOk, hdone⟩ h.ending.tracked hstep)
  · have hdata : input.data = [] := by
      cases input with
      | dataReceived data endStream =>
        have hended := hinput rfl
        rw [hsucceeded.ended] at hended
        cases hended
      | _ => rfl
    refine .inr ⟨step_operationFinished h.ending.tracked hstep hsucceeded.finished,
      by rw [hsucceeded.ended, Bool.true_or], ?_, by rw [hdata, List.append_nil]; exact hsucceeded.within⟩
    refine (hloops hsucceeded.loops).resolve_right ?_
    rw [hsucceeded.ended]
    simp

/-- An undecided RPC is open, and nothing it has received was rejected. -/
theorem Reception.undecided {env : Environment} {limit : UInt32} {received : Bytes} {ended : Bool}
    {rpc : Rpc} (h : Reception env limit received ended rpc)
    (hdone : ¬ (rpc.operationFinished = true ∨ rpc.context = false)) :
    rpc.Unrejected limit received ∧ rpc.state.ended = false := by
  refine ⟨?_, ?_⟩
  · rcases h.outcome with hfailed | hunrejected | hsucceeded
    · exact absurd hfailed.2 hdone
    · exact hunrejected
    · exact absurd (.inl hsucceeded.finished) hdone
  · by_contra hstate
    exact hdone (h.closed (by simpa using hstate))

/-- Code beside the data handler leaves the reception as it is, or ends it with the trailers. -/
theorem Reception.beside {env : Environment} {options : HandlerOptions} {limit : UInt32}
    {received : Bytes} {ended : Bool} {rpc next : Rpc} {input : Input}
    (h : Reception env limit received ended rpc) (hinput : input.fromStream = true → ended = false)
    (hdata : ∀ data endStream, input ≠ .dataReceived data endStream)
    (hloop : ∀ reads endStream rest, input = .resume reads →
      rpc.stack ≠ .dataReceived endStream :: rest)
    (hstep : step env options rpc input = some next) :
    Reception env limit (received ++ input.data) (ended || input.endsStream) next := by
  have hbeside := step_beside env options rpc next input hdata hloop hstep
  have hnone : input.data = [] := by
    cases input with
    | dataReceived data endStream => exact absurd rfl (hdata data endStream)
    | _ => rfl
  refine ⟨step_ending env options rpc next input h.ending hstep,
    by rw [hbeside.parser]; exact h.maxReceiveSize, ?_, ?_, h.payloads_step hstep, ?_⟩
  · rw [hbeside.loops]
    rcases h.loops with hnone | ⟨endStream, hloops, hend⟩
    · exact .inl hnone
    · exact .inr ⟨endStream, hloops, fun hlast => by rw [hend hlast, Bool.true_or]⟩
  · intro hstate
    rcases hbeside.ended hstate with hstate | hdone
    · exact (h.closed hstate).imp hbeside.finished hbeside.context
    · exact hdone
  · by_cases hdone : rpc.operationFinished = true ∨ rpc.context = false
    · rcases h.decided hinput hstep hdone fun hloops => .inl (by rw [hbeside.loops, hloops]) with
        hfailed | hsucceeded
      · exact .inl hfailed
      · exact .inr (.inr hsucceeded)
    · obtain ⟨hunrejected, -⟩ := h.undecided hdone
      rw [hnone, List.append_nil]
      by_cases hnever : NeverOk next.trace
      · refine .inr (.inl ⟨hnever, ?_, ?_⟩)
        · rw [hbeside.parser]
          exact hunrejected.buffered
        · rw [hbeside.parser, hbeside.loops]
          exact hunrejected.drained
      · have hend : rpc.finishesOnEndStream input = false := by
          unfold finishesOnEndStream
          split
          · split
            · rename_i hstack _
              exact absurd hstack (hloop _ true _ rfl)
            · rfl
          · rfl
        obtain ⟨headers, rfl⟩ : ∃ headers, input = .headersReceived headers true := by
          by_contra hother
          exact hnever (step_neverOk env options rpc next input h.ending.tracked
            hunrejected.neverOk (fun headers heq => absurd ⟨headers, heq⟩ hother) hend hstep)
        have hempty : rpc.dataLoops = [] := by
          simp only [step] at hstep
          split at hstep <;> cases hstep
          rename_i hready
          rw [dataLoops, ((atEventLoop_iff rpc).mp hready.1).1]
          rfl
        refine .inr (.inr ⟨?_, by simp [Input.endsStream], by rw [hbeside.loops, hempty], ?_⟩)
        · refine (step_ending env options rpc next _ h.ending hstep).finished.mpr ?_
          by_contra hsilent
          exact hnever fun status hmem => absurd ⟨status, hmem⟩ hsilent
        · intro hdeclares
          refine hunrejected.drained hempty ?_
          simpa using hunrejected.buffered [] (by simpa using hdeclares)

/-- The data handler takes the bytes of one frame of the stream into its buffer. -/
theorem Reception.dataReceived {env : Environment} {options : HandlerOptions} {limit : UInt32}
    {received : Bytes} {ended : Bool} {rpc next : Rpc} {data : Bytes} {endStream : Bool}
    (h : Reception env limit received ended rpc) (hended : ended = false)
    (hstep : step env options rpc (.dataReceived data endStream) = some next) :
    Reception env limit (received ++ data) (ended || endStream) next := by
  refine ⟨step_ending env options rpc next _ h.ending hstep, ?_, ?_, ?_, h.payloads_step hstep, ?_⟩
  · simp only [step] at hstep
    split at hstep <;> cases hstep
    unfold Rpc.dataReceived
    split
    · exact h.maxReceiveSize
    · split <;> exact h.maxReceiveSize
  · have hsame : rpc.dataLoops = [] ∨ ∃ endStream', rpc.dataLoops = [.dataReceived endStream'] ∧
        (endStream' = true → (ended || endStream) = true) := by
      rcases h.loops with hnone | ⟨endStream', hloops, hend⟩
      · exact .inl hnone
      · exact .inr ⟨endStream', hloops, fun hlast => by rw [hend hlast, Bool.true_or]⟩
    simp only [step] at hstep
    split at hstep <;> cases hstep
    rename_i hready
    have hstack := ((atEventLoop_iff rpc).mp hready.1).1
    unfold Rpc.dataReceived
    split
    · exact hsame
    · split
      · exact hsame
      · refine .inr ⟨endStream, ?_, fun hlast => by rw [hlast, Bool.or_true]⟩
        simp [dataLoops, push, hstack, Continuation.receives]
  · simp only [step] at hstep
    split at hstep <;> cases hstep
    unfold Rpc.dataReceived
    split
    · exact h.closed
    · split <;> exact h.closed
  · by_cases hdone : rpc.operationFinished = true ∨ rpc.context = false
    · rcases h.decided (fun _ => hended) hstep hdone fun _ => .inr hended with hfailed | hsucceeded
      · exact .inl hfailed
      · exact .inr (.inr hsucceeded)
    · obtain ⟨hunrejected, hstate⟩ := h.undecided hdone
      simp only [step] at hstep
      split at hstep <;> cases hstep
      have hopen : ¬ ¬ rpc.context = true := fun hcontext => hdone (.inr (by simpa using hcontext))
      have hrunning : ¬ rpc.state = .cancelled := by
        intro hcancelled
        rw [hcancelled] at hstate
        cases hstate
      rw [Rpc.dataReceived, if_neg hopen, if_neg hrunning]
      refine .inr (.inl ⟨hunrejected.neverOk, fun later hdeclares => ?_, fun hloops => ?_⟩)
      · rw [List.append_assoc] at hdeclares
        simpa [push, feed] using hunrejected.buffered (data ++ later) hdeclares
      · simp [dataLoops, push, Continuation.receives] at hloops

/-- One round of the data handler takes a frame from the buffer, rejects it, or ends with it. -/
theorem Reception.receiveNext {env : Environment} {options : HandlerOptions} {limit : UInt32}
    {received : Bytes} {ended : Bool} {rpc next : Rpc} {reads : List ReadResult} {endStream : Bool}
    {rest : List Continuation} (h : Reception env limit received ended rpc)
    (hstack : rpc.stack = .dataReceived endStream :: rest)
    (hstep : step env options rpc (.resume reads) = some next) :
    Reception env limit received ended next := by
  have hending := step_ending env options rpc next _ h.ending hstep
  have hpayloads := h.payloads_step hstep
  obtain ⟨hlast, hrest⟩ : (endStream = true → ended = true) ∧
      rest.filter Continuation.receives = [] := by
    rcases h.loops with hloops | ⟨endStream', hloops, hend⟩
    · rw [dataLoops_of_top hstack] at hloops
      cases hloops
    · rw [dataLoops_of_top hstack] at hloops
      injection hloops with hhead hrest
      injection hhead with hhead
      exact ⟨by rw [hhead]; exact hend, hrest⟩
  have hdecided (hdone : rpc.operationFinished = true ∨ rpc.context = false) :
      next.Failed ∨ next.Unrejected limit received ∨ next.Succeeded limit received ended := by
    rcases h.decided (fun hstream => by cases hstream) hstep hdone (fun hloops => by
        rw [dataLoops_of_top hstack] at hloops
        cases hloops) with hfailed | hsucceeded
    · exact .inl hfailed
    · refine .inr (.inr ?_)
      simpa [Input.data, Input.endsStream] using hsucceeded
  have hbuffer : rpc.grpcDataParser = ⟨limit, rpc.grpcDataParser.container⟩ := by
    rw [← h.maxReceiveSize]
  have hfinish (parser : GrpcDataParser) (status : QGrpcStatus)
      (hparser : parser.maxReceiveSize = limit)
      (hnext : next = ({ rpc with stack := rest, grpcDataParser := parser } : Rpc).finish status)
      (houtcome : next.Failed ∨ next.Unrejected limit received ∨
        next.Succeeded limit received ended) : Reception env limit received ended next := by
    have hbeside := finish_beside ({ rpc with stack := rest, grpcDataParser := parser }) status
    rw [← hnext] at hbeside
    refine ⟨hending, by rw [hbeside.parser]; exact hparser, .inl (hbeside.loops.trans hrest), ?_,
      hpayloads, houtcome⟩
    intro hstate
    rcases hbeside.ended hstate with hstate | hdone
    · exact (h.closed hstate).imp hbeside.finished hbeside.context
    · exact hdone
  have hreject (parser : GrpcDataParser) (status : QGrpcStatus)
      (hparser : parser.maxReceiveSize = limit) (hstatus : status.code ≠ .ok)
      (hnext : next = ({ rpc with stack := rest, grpcDataParser := parser } : Rpc).finish status) :
      Reception env limit received ended next := by
    refine hfinish parser status hparser hnext ?_
    by_cases hdone : rpc.operationFinished = true ∨ rpc.context = false
    · exact hdecided hdone
    · rw [hnext]
      exact .inl (finish_failed hstatus (h.undecided hdone).1.neverOk h.closed)
  simp only [step, resume, hstack, Option.some.injEq] at hstep
  unfold Rpc.receiveNext at hstep
  dsimp only at hstep
  split at hstep
  · rename_i parser hparse
    obtain ⟨hlimit, hsame⟩ := parseNextFrame_error _ _ _ hparse
    obtain ⟨-, rfl⟩ : ParseError.needMoreData = .needMoreData ∧ parser = rpc.grpcDataParser := by
      rcases hsame with hsame | ⟨⟨size, hsize, -⟩, -⟩
      · exact hsame
      · cases hsize
    have hdrained : ¬ DeclaresOversize limit.toNat rpc.grpcDataParser.container := by
      intro hdeclares
      refine hdeclares.not_needMoreData ?_
      rw [← hbuffer, hparse]
    split at hstep
    · subst hstep
      refine ⟨hending, h.maxReceiveSize, .inl hrest, h.closed, hpayloads, ?_⟩
      by_cases hdone : rpc.operationFinished = true ∨ rpc.context = false
      · exact hdecided hdone
      · have hunrejected := (h.undecided hdone).1
        exact .inr (.inl ⟨hunrejected.neverOk, hunrejected.buffered, fun _ => hdrained⟩)
    rename_i hend
    split at hstep
    · exact hreject rpc.grpcDataParser _ h.maxReceiveSize (by simp) hstep.symm
    rename_i hempty
    refine hfinish rpc.grpcDataParser {} h.maxReceiveSize hstep.symm ?_
    by_cases hdone : rpc.operationFinished = true ∨ rpc.context = false
    · exact hdecided hdone
    · obtain ⟨hunrejected, hstate⟩ := h.undecided hdone
      have hbeside := finish_beside ({ rpc with stack := rest }) {}
      rw [show ({ rpc with stack := rest } : Rpc).finish {} = next from hstep] at hbeside
      refine .inr (.inr ⟨?_, hlast (by simpa using hend), hbeside.loops.trans hrest, ?_⟩)
      · have hsettles := finish_settles ({ rpc with stack := rest }) {} (by
          intro hfinished
          rw [show rpc.state = .finished from hfinished] at hstate
          cases hstate)
        rw [show ({ rpc with stack := rest } : Rpc).finish {} = next from hstep] at hsettles
        exact hsettles.resolve_right fun hcontext => hdone (.inr hcontext)
      · intro hdeclares
        exact hdrained (by simpa using hunrejected.buffered [] (by simpa using hdeclares))
  · rename_i declaredSize parser hparse
    refine hreject parser _ ?_ (by simp) hstep.symm
    rw [(parseNextFrame_error _ _ _ hparse).1, h.maxReceiveSize]
  · rename_i frame parser hparse
    have hlimit : parser.maxReceiveSize = limit := by
      rw [(parseNextFrame_ok _ _ _ hparse).1, h.maxReceiveSize]
    split at hstep
    · rename_i status hpayload
      exact hreject parser status hlimit (framePayload_error_ne_ok _ _ _ _ hpayload) hstep.symm
    · rename_i payload hpayload
      have hparser : next.grpcDataParser = parser := by
        rw [← hstep]
        unfold messageReceived
        split <;> rfl
      have hloops : next.dataLoops = [.dataReceived endStream] := by
        rw [← hrest, ← hstep]
        unfold messageReceived
        split <;> rfl
      refine ⟨hending, by rw [hparser, hlimit], .inr ⟨endStream, hloops, hlast⟩, ?_, hpayloads, ?_⟩
      · rw [← hstep]
        unfold messageReceived
        split <;> exact h.closed
      · by_cases hdone : rpc.operationFinished = true ∨ rpc.context = false
        · exact hdecided hdone
        · have hunrejected := (h.undecided hdone).1
          refine .inr (.inl ⟨?_, fun later hdeclares => ?_, fun hnone => ?_⟩)
          · rw [← hstep]
            unfold messageReceived
            split
            · intro status hmem
              exact hunrejected.neverOk status (by simpa [push, emit] using hmem)
            · exact hunrejected.neverOk
          · rw [hparser]
            rw [hbuffer] at hparse
            exact (hunrejected.buffered later hdeclares).drop hparse
          · rw [hloops] at hnone
            cases hnone

/-- A step keeps what is known about the reception, with the bytes that it brings. -/
theorem Reception.after {env : Environment} {options : HandlerOptions} {limit : UInt32}
    {received : Bytes} {ended : Bool} {rpc next : Rpc} {input : Input}
    (h : Reception env limit received ended rpc) (hinput : input.fromStream = true → ended = false)
    (hstep : step env options rpc input = some next) :
    Reception env limit (received ++ input.data) (ended || input.endsStream) next := by
  by_cases hdata : ∃ data endStream, input = .dataReceived data endStream
  · obtain ⟨data, endStream, rfl⟩ := hdata
    exact h.dataReceived (hinput rfl) hstep
  by_cases hloop : ∃ reads endStream rest, input = .resume reads ∧
      rpc.stack = .dataReceived endStream :: rest
  · obtain ⟨reads, endStream, rest, rfl, hstack⟩ := hloop
    simpa [Input.data, Input.endsStream] using h.receiveNext hstack hstep
  · exact h.beside hinput (fun data endStream heq => hdata ⟨_, _, heq⟩)
      (fun reads endStream rest heq hstack => hloop ⟨_, _, _, heq, hstack⟩) hstep

/-- A frame that is decompressed to more than the limit ends the RPC with an error. -/
theorem Reception.inflated {env : Environment} {options : HandlerOptions} {limit : UInt32}
    {received : Bytes} {ended : Bool} {rpc next : Rpc} {input : Input}
    (h : Reception env limit received ended rpc)
    (hstep : step env options rpc input = some next)
    (habove : limit.toNat < rpc.inflatedSize input) : Failed next := by
  unfold inflatedSize at habove
  split at habove
  · rename_i reads
    split at habove
    · rename_i endStream rest frame parser hstack hparse
      split at habove
      · rename_i hcompressed
        have hnever : NeverOk rpc.trace := by
          rcases h.outcome with hfailed | hunrejected | hsucceeded
          · exact hfailed.1
          · exact hunrejected.neverOk
          · have hloops := hsucceeded.loops
            rw [dataLoops_of_top hstack] at hloops
            cases hloops
        obtain ⟨status, hstatus⟩ := decompress_above rpc.grpcDataParser.maxReceiveSize [] reads
          (by rw [h.maxReceiveSize]; simpa using habove) (by simp)
        have hpayload : ({ rpc with stack := rest } : Rpc).framePayload frame reads =
            .error status := by
          simp only [framePayload, hcompressed.1, hcompressed.2.1, hcompressed.2.2, if_true]
          simpa using hstatus
        simp only [step, resume, hstack, Option.some.injEq] at hstep
        rw [← hstep]
        simp only [Rpc.receiveNext, hparse, hpayload]
        exact finish_failed (decompress_error_ne_ok _ _ _ _ hstatus) hnever h.closed
      · omega
    · omega
  · omega

/-- An RPC that has received nothing yet. -/
theorem starts_reception (env : Environment) (options : HandlerOptions) (start : Rpc)
    (hstart : Starts options start) : Reception env options.maxReceiveSize [] false start := by
  have hending := starts_ending env options start hstart
  cases hstart with
  | constructed data compressed =>
    have heffect := writeMessage_effect options (fresh options) data compressed
    have hbeside := writeMessage_beside options (fresh options) data compressed
    refine ⟨hending, by rw [hbeside.parser]; rfl, .inl hbeside.loops, ?_, ?_, .inr (.inl ⟨?_, ?_, ?_⟩)⟩
    · intro hstate
      rcases hbeside.ended hstate with hstate | hdone
      · cases hstate
      · exact hdone
    · intro payload hmem
      rcases heffect with ⟨quiet, htrace, hquiet, -⟩ |
        ⟨quiet, e, htrace, hquiet, -, ⟨-, status, -, rfl⟩, -⟩
      · rw [htrace, show (fresh options).trace = [] from rfl, List.nil_append] at hmem
        cases hquiet _ hmem
      · rw [htrace, show (fresh options).trace = [] from rfl, List.nil_append] at hmem
        rcases List.mem_append.mp hmem with hmem | hmem
        · cases (hquiet _ hmem).1
        · simp at hmem
    · refine heffect.neverOk (by simp [NeverOk, fresh]) fun quiet other hfails => ?_
      obtain ⟨-, failure, hfailure, heq⟩ := hfails
      obtain rfl : other = failure := by simpa using heq
      exact hfailure
    · rw [hbeside.parser]
      exact fun later => id
    · rw [hbeside.parser]
      exact fun _ => not_declaresOversize_nil _
  | turnedDown status h =>
    exact ⟨hending, rfl, .inl rfl, by simp [fresh, State.ended], by simp [fresh],
      .inr (.inl ⟨by simp [NeverOk, fresh], fun later => id, fun _ => not_declaresOversize_nil _⟩)⟩

end Rpc

/-- The input that one RPC takes. -/
def ChannelInput.forRpc (index : Nat) : ChannelInput → Option Input
  | .rpc i input => if i = index then some input else none
  | _ => none

/-- The bytes that one stream delivers. -/
def streamData (inputs : List Input) : Bytes := (inputs.map Input.data).flatten

/-- The receive limit of a call: the first of the three settings that is there, or the default,
and never more than the length prefix can announce. -/
def effectiveMaximumReceiveSize (envMaximumReceiveSize : Option UInt64)
    (channelOptions : ChannelOptions) (callOptions : CallOptions) : Nat :=
  min ((callOptions.maximumReceiveMessageSize <|> channelOptions.maximumReceiveMessageSize <|>
    envMaximumReceiveSize).elim DefaultMaximumReceiveMessageSize.toNat UInt64.toNat)
    Rpc.GrpcMaxPayloadSize

/-- A configured size is cut down to the largest payload. -/
theorem clampToCap_toNat (configured : UInt64) :
    (clampToCap configured (UInt32.ofNat Rpc.GrpcMaxPayloadSize)).toNat =
      min configured.toNat Rpc.GrpcMaxPayloadSize := by
  have hcap : (UInt32.ofNat Rpc.GrpcMaxPayloadSize).toNat = 2 ^ 32 - 1 := by decide
  rw [clampToCap, hcap, Rpc.GrpcMaxPayloadSize]
  split
  · rw [show UInt32.ofNat (2 ^ 32 - 1) = UInt32.ofNat Rpc.GrpcMaxPayloadSize from rfl, hcap]
    omega
  · rw [UInt64.toNat_toUInt32]
    omega

/-- The handler is given the effective limit. -/
theorem constructMaximumReceiveSize_toNat (envMaximumReceiveSize : Option UInt64)
    (channelOptions : ChannelOptions) (callOptions : CallOptions) :
    (constructMaximumReceiveSize envMaximumReceiveSize channelOptions callOptions).toNat =
      effectiveMaximumReceiveSize envMaximumReceiveSize channelOptions callOptions := by
  unfold constructMaximumReceiveSize effectiveMaximumReceiveSize
  cases callOptions.maximumReceiveMessageSize with
  | some callVal => exact clampToCap_toNat callVal
  | none =>
    cases channelOptions.maximumReceiveMessageSize with
    | some chVal => exact clampToCap_toNat chVal
    | none =>
      cases envMaximumReceiveSize with
      | some envVal => exact clampToCap_toNat envVal
      | none => decide

namespace Channel

/-- A call starts with nothing received, under a limit that is not above its effective one. -/
theorem start_reception (env : Environment) (channel : Channel) (operation : Operation) :
    ∃ handler limit, (channel.start operation).rpcs[channel.rpcs.length]? = some handler ∧
      limit.toNat ≤ effectiveMaximumReceiveSize channel.endpoint.envMaximumReceiveSize
        channel.channelOptions operation.callOptions ∧
      Rpc.Reception env limit [] false handler.rpc := by
  unfold start
  split
  · refine ⟨_, 0, by simp; rfl, by simp, ?_⟩
    exact Rpc.starts_reception env { bidiOptions with maxReceiveSize := 0 } _
      (.turnedDown ⟨.aborted, "Serializer is not available"⟩ (by simp))
  · refine ⟨channel.startedHandler operation, _, by simp,
      (constructMaximumReceiveSize_toNat _ _ _).le, ?_⟩
    exact Rpc.starts_reception env ((channel.startedHandler operation).options channel.channelOptions)
      _ (.constructed operation.data operation.compressed)

/-- Along a run of its channel an RPC receives what its stream delivers, under whatever options
the channel has meanwhile. -/
theorem run_reception {env : Environment} {limit : UInt32} {index : Nat} (inputs : List ChannelInput)
    {channel final : Channel} {handler : Handler} {received : Bytes} {ended : Bool}
    (hhandler : channel.rpcs[index]? = some handler)
    (h : Rpc.Reception env limit received ended handler.rpc)
    (honce : EndsOnce (inputs.filterMap (ChannelInput.forRpc index)))
    (hended : ended = true →
      ∀ i ∈ inputs.filterMap (ChannelInput.forRpc index), i.fromStream = false)
    (hrun : Transition.run (step env) channel inputs = some final) :
    ∃ last ended', final.rpcs[index]? = some last ∧
      Rpc.Reception env limit
        (received ++ streamData (inputs.filterMap (ChannelInput.forRpc index))) ended' last.rpc := by
  induction inputs generalizing channel handler received ended with
  | nil =>
    obtain rfl : channel = final := by simpa [Transition.run] using hrun
    exact ⟨handler, ended, hhandler, by simpa [streamData] using h⟩
  | cons input inputs ih =>
    rw [Transition.run_cons, Option.bind_eq_some_iff] at hrun
    obtain ⟨next, hnext, hrest⟩ := hrun
    rcases step_handler hhandler hnext with ⟨own, stepped, rfl, hstepped, hfound⟩ | ⟨hother, hfound⟩
    · have hown : (ChannelInput.rpc index own :: inputs).filterMap (ChannelInput.forRpc index) =
          own :: inputs.filterMap (ChannelInput.forRpc index) := by
        simp [ChannelInput.forRpc]
      rw [hown] at honce hended ⊢
      obtain ⟨rpc, hrpc, rfl⟩ := Option.map_eq_some_iff.mp hstepped
      have hstream : own.fromStream = true → ended = false := by
        intro hown
        by_contra hlast
        have := hended (by simpa using hlast) own (by simp)
        rw [hown] at this
        cases this
      obtain ⟨hfirst, honce⟩ := List.pairwise_cons.mp honce
      obtain ⟨last, ended', hlast, hreception⟩ := ih hfound (h.after hstream hrpc) honce (by
        intro hdone i hi
        rcases Bool.or_eq_true_iff.mp hdone with hdone | hdone
        · exact hended hdone i (by simp [hi])
        · exact hfirst i hi hdone) hrest
      exact ⟨last, ended', hlast, by simpa [streamData] using hreception⟩
    · have hskip : (input :: inputs).filterMap (ChannelInput.forRpc index) =
          inputs.filterMap (ChannelInput.forRpc index) := by
        refine List.filterMap_cons_none ?_
        cases input with
        | rpc i own =>
          by_cases hi : i = index
          · exact absurd (by rw [hi]) (hother own)
          · exact if_neg hi
        | _ => rfl
      rw [hskip] at honce hended ⊢
      exact ih hfound h honce hended hrest

/-- A failed RPC stays failed in every run of its channel. -/
theorem run_failed {env : Environment} {index : Nat} {inputs : List ChannelInput}
    {channel final : Channel} {handler : Handler} (hhandler : channel.rpcs[index]? = some handler)
    (hending : Rpc.Ending env handler.rpc) (hfailed : handler.rpc.Failed)
    (hrun : Transition.run (step env) channel inputs = some final) :
    ∃ last, final.rpcs[index]? = some last ∧ last.rpc.Failed := by
  obtain ⟨last, hlast, -, hfailed⟩ := Transition.run_invariant (step env)
    (fun channel => ∃ handler, channel.rpcs[index]? = some handler ∧
      Rpc.Ending env handler.rpc ∧ handler.rpc.Failed)
    (fun channel input next ⟨handler, hhandler, hending, hfailed⟩ hstep => by
      rcases step_handler hhandler hstep with ⟨own, stepped, rfl, hstepped, hfound⟩ | ⟨-, hfound⟩
      · obtain ⟨rpc, hrpc, rfl⟩ := Option.map_eq_some_iff.mp hstepped
        exact ⟨_, hfound, Rpc.step_ending env _ _ _ _ hending hrpc,
          hfailed.step hending.tracked hrpc⟩
      · exact ⟨handler, hfound, hending, hfailed⟩)
    channel final inputs ⟨handler, hhandler, hending, hfailed⟩ hrun
  exact ⟨last, hlast, hfailed⟩

end Channel

/-- However the server fills the stream of a call and however its frames are cut, every payload
passed on is within the effective receive limit; and a call whose stream declares a frame above
that limit, or that has a frame decompressed to more, never finishes with success. -/
theorem receiveLimit (env : Environment) (channel final : Channel) (operation : Operation)
    (inputs : List ChannelInput)
    (hrun : Transition.run (Channel.step env) (channel.start operation) inputs = some final)
    (honce : EndsOnce (inputs.filterMap (ChannelInput.forRpc channel.rpcs.length))) :
    ∃ handler, final.rpcs[channel.rpcs.length]? = some handler ∧
      let limit := effectiveMaximumReceiveSize channel.endpoint.envMaximumReceiveSize
        channel.channelOptions operation.callOptions
      (∀ payload, .messageReceived payload ∈ handler.rpc.trace → payload.length ≤ limit) ∧
      (∀ before input after reached earlier,
        inputs = before ++ .rpc channel.rpcs.length input :: after →
        Transition.run (Channel.step env) (channel.start operation) before = some reached →
        reached.rpcs[channel.rpcs.length]? = some earlier →
        (∀ payload, earlier.rpc.passedPayload input = some payload → payload.length ≤ limit) ∧
        (limit < earlier.rpc.inflatedSize input → NeverOk handler.rpc.trace)) ∧
      (DeclaresOversize limit
          (streamData (inputs.filterMap (ChannelInput.forRpc channel.rpcs.length))) →
        NeverOk handler.rpc.trace) := by
  obtain ⟨start, small, hstart, hsmall, hreception⟩ :=
    Channel.start_reception env channel operation
  obtain ⟨last, ended, hlast, hfinal⟩ := Channel.run_reception inputs hstart hreception honce
    (by simp) hrun
  refine ⟨last, hlast, fun payload hmem => (hfinal.payloads payload hmem).trans hsmall, ?_, ?_⟩
  · rintro before input after reached earlier rfl hbefore hearlier
    rw [List.filterMap_append] at honce
    obtain ⟨found, ended', hfound, hreached⟩ := Channel.run_reception before hstart hreception
      (List.pairwise_append.mp honce).1 (by simp) hbefore
    obtain rfl : found = earlier := Option.some.inj (hfound.symm.trans hearlier)
    refine ⟨fun payload hpassed => ?_, fun habove => ?_⟩
    · have hwithin := Rpc.passedPayload_length hpassed
      rw [hreached.maxReceiveSize] at hwithin
      exact hwithin.trans hsmall
    · rw [Transition.run_append, hbefore, Option.bind_some, Transition.run_cons,
        Option.bind_eq_some_iff] at hrun
      obtain ⟨next, hnext, hrest⟩ := hrun
      rcases Channel.step_handler hearlier hnext with ⟨own, stepped, hown, hstepped, hfollows⟩ |
        ⟨hother, -⟩
      · cases hown
        obtain ⟨rpc, hrpc, rfl⟩ := Option.map_eq_some_iff.mp hstepped
        obtain ⟨last', hlast', hfailed⟩ := Channel.run_failed hfollows
          (Rpc.step_ending env _ _ _ _ hreached.ending hrpc)
          (hreached.inflated hrpc (hsmall.trans_lt habove)) hrest
        obtain rfl : last' = last := Option.some.inj (hlast'.symm.trans hlast)
        exact hfailed.1
      · exact absurd rfl (hother input)
  · intro hdeclares
    rcases hfinal.outcome with hfailed | hunrejected | hsucceeded
    · exact hfailed.1
    · exact hunrejected.neverOk
    · exact absurd (hdeclares.mono hsmall) hsucceeded.within

/-- A bidirectional stream that accepts two bytes at most. -/
def limitedStream : Operation where
  service := ascii "Service"
  method := ascii "Method"
  rpcType := .bidiStreaming
  callOptions := { maximumReceiveMessageSize := some 2 }
  data := []
  compressed := none

/-- The server sends a message of one byte, cut in two, and declares three bytes behind it. -/
def declaresThreeBytes : List ChannelInput :=
  answered.map (.rpc 0) ++ [.rpc 0 (.dataReceived [0, 0, 0] false), .rpc 0 (.resume []),
    .rpc 0 (.dataReceived [0, 1, 7, 0, 0, 0, 0, 3] true), .rpc 0 (.resume []),
    .rpc 0 .slotReturned, .rpc 0 (.resume [])]

/-- The byte is passed on, and the call does not succeed. -/
theorem receiveLimit_declaresThreeBytes :
    ∃ (final : Channel) (handler : Handler), final.rpcs[0]? = some handler ∧
      .messageReceived [7] ∈ handler.rpc.trace ∧ NeverOk handler.rpc.trace := by
  obtain ⟨final, hrun⟩ := Option.isSome_iff_exists.mp
    (show (Transition.run (Channel.step plainEnvironment)
      ((Channel.construct plainEndpoint {}).start limitedStream) declaresThreeBytes).isSome = true
      by decide)
  obtain ⟨handler, hhandler, -, -, hnever⟩ := receiveLimit plainEnvironment
    (Channel.construct plainEndpoint {}) final limitedStream declaresThreeBytes hrun (by decide)
  refine ⟨final, handler, hhandler, ?_, hnever ?_⟩
  · have hpassed : (Transition.run (Channel.step plainEnvironment)
        ((Channel.construct plainEndpoint {}).start limitedStream) declaresThreeBytes).all
          (fun final => final.rpcs[0]?.all fun handler =>
            .messageReceived [7] ∈ handler.rpc.trace) = true := by decide
    rw [hrun] at hpassed
    rw [Option.all_some, show final.rpcs[0]? = some handler from hhandler, Option.all_some] at hpassed
    exact of_decide_eq_true hpassed
  · have hoversize : DeclaresOversize 2 [0, 0, 0, 0, 1, 7, 0, 0, 0, 0, 3] :=
      .later 0 [0, 0, 0, 1] [7] [0, 0, 0, 0, 3] rfl (by decide) (by decide)
        (.here 0 [0, 0, 0, 3] [] rfl (by decide))
    exact hoversize

end QtGrpc.Http2
