import Mathlib.Data.List.Forall2
import QtGrpc.Http2.ReceiveLimit

/-!
# The messages of a stream

The data handler cuts frames off the bytes its stream has delivered and signals their payloads. In
whatever order the stream, the user and the event loop take their turns, the payloads signalled
until the operation finishes are those of the first frames of these bytes, each once and in order. An
idle handler of an unfinished operation, and one that has finished with success, has left out none.
-/

namespace QtGrpc.Http2

open ByteOrder GrpcDataParser

/-- Frames within the limit at the front of some bytes, and the bytes behind them. -/
inductive Cuts (limit : Nat) : Bytes → List Frame → Bytes → Prop where
  | nil (stream : Bytes) : Cuts limit stream [] stream
  | cons (flag : UInt8) (lengthBytes payload : Bytes) {stream rest : Bytes} {frames : List Frame}
      (hlength : lengthBytes.length = 4) (hpayload : payload.length = ofBigEndian lengthBytes)
      (hwithin : payload.length ≤ limit) (h : Cuts limit stream frames rest) :
      Cuts limit (flag :: (lengthBytes ++ (payload ++ stream))) (⟨payload, flag != 0⟩ :: frames) rest

/-- No further frame within the limit is complete. -/
def CutsNone (limit : Nat) (stream : Bytes) : Prop :=
  ∀ frames rest, Cuts limit stream frames rest → frames = []

/-- Later bytes are added to what is left. -/
theorem Cuts.append {limit : Nat} {stream rest : Bytes} {frames : List Frame}
    (h : Cuts limit stream frames rest) (later : Bytes) :
    Cuts limit (stream ++ later) frames (rest ++ later) := by
  induction h with
  | nil stream => exact .nil _
  | cons flag lengthBytes payload hlength hpayload hwithin h ih =>
    have hcons := Cuts.cons flag lengthBytes payload hlength hpayload hwithin ih
    simpa only [List.cons_append, List.append_assoc] using hcons

/-- Frames cut from what is left follow those before. -/
theorem Cuts.trans {limit : Nat} {stream rest left : Bytes} {frames more : List Frame}
    (h : Cuts limit stream frames rest) (hmore : Cuts limit rest more left) :
    Cuts limit stream (frames ++ more) left := by
  induction h with
  | nil stream => exact hmore
  | cons flag lengthBytes payload hlength hpayload hwithin h ih =>
    exact .cons flag lengthBytes payload hlength hpayload hwithin (ih hmore)

/-- The parser cuts off the first frame. -/
theorem cuts_of_parseNextFrame {limit : UInt32} {buffered : Bytes} {frame : Frame}
    {next : GrpcDataParser} (h : parseNextFrame ⟨limit, buffered⟩ = (.ok frame, next)) :
    Cuts limit.toNat buffered [frame] next.container := by
  obtain ⟨flag, lengthBytes, hlength, hpayload, hwithin, -, rfl⟩ :=
    parseNextFrame_split limit buffered frame next h
  have hflag : frame.isCompressed = (flag != 0) := by
    rw [parseNextFrame_header limit flag lengthBytes _ hlength, if_neg (by omega),
      if_neg (by simp; omega)] at h
    exact congrArg Frame.isCompressed (Except.ok.inj (Prod.mk.inj h).1).symm
  have hcuts := Cuts.cons flag lengthBytes frame.payload hlength hpayload hwithin (.nil next.container)
  rwa [← hflag] at hcuts

/-- A parser that waits for more data has no complete frame. -/
theorem cutsNone_of_needMoreData {limit : UInt32} {buffered : Bytes}
    (h : (parseNextFrame ⟨limit, buffered⟩).1 = .error .needMoreData) :
    CutsNone limit.toNat buffered := by
  intro frames rest hcuts
  cases hcuts with
  | nil => rfl
  | cons flag lengthBytes payload hlength hpayload hwithin hcuts =>
    rw [parseNextFrame_header limit flag lengthBytes _ hlength, if_neg (by omega),
      if_neg (by simp; omega)] at h
    cases h

/-- What is signalled for a frame: its payload, or what a compressed one is decompressed to. -/
def Delivers (limit : UInt32) (frame : Frame) (payload : Bytes) : Prop :=
  if frame.isCompressed then ∃ reads, Rpc.decompress limit [] reads = .ok payload
  else payload = frame.payload

/-- The payloads signalled, in order. -/
def messagesReceived (trace : List Event) : List Bytes :=
  trace.filterMap fun
    | .messageReceived payload => some payload
    | _ => none

/-- What is signalled until the operation finishes. -/
def untilFinished (trace : List Event) : List Event := trace.takeWhile fun e => !e.isFinished

/-- The messages signalled by two traces stand one behind the other. -/
theorem messagesReceived_append (trace later : List Event) :
    messagesReceived (trace ++ later) = messagesReceived trace ++ messagesReceived later :=
  List.filterMap_append

/-- What is not signalled is no message. -/
theorem messagesReceived_quiet {quiet : List Event} (h : ∀ e ∈ quiet, e.signalled = false) :
    messagesReceived quiet = [] := by
  refine List.filterMap_eq_nil_iff.mpr fun e he => ?_
  have hsignalled := h e he
  cases e <;> first | rfl | cases hsignalled

/-- Nothing counts behind the end. -/
theorem untilFinished_append_of_finished {trace : List Event} (later : List Event)
    {status : QGrpcStatus} (h : .finished status ∈ trace) :
    untilFinished (trace ++ later) = untilFinished trace := by
  induction trace with
  | nil => cases h
  | cons e trace ih =>
    unfold untilFinished at ih ⊢
    rw [List.cons_append, List.takeWhile_cons, List.takeWhile_cons]
    split
    · rename_i hgoes
      rcases List.mem_cons.mp h with rfl | hmem
      · cases hgoes
      · rw [ih hmem]
    · rfl

/-- Everything counts before the end. -/
theorem untilFinished_append {trace : List Event} (later : List Event)
    (h : ∀ status, .finished status ∉ trace) :
    untilFinished (trace ++ later) = trace ++ untilFinished later := by
  refine List.takeWhile_append_of_pos fun e he => ?_
  cases e <;> first | rfl | exact absurd he (h _)

namespace Rpc

/-- How the messages signalled by an RPC depend on the bytes received. -/
structure Delivery (limit : UInt32) (received : Bytes) (rpc : Rpc) : Prop where
  early : ∃ frames rest, Cuts limit.toNat received frames rest ∧
    List.Forall₂ (Delivers limit) frames (messagesReceived (untilFinished rpc.trace)) ∧
    (¬ NeverOk rpc.trace → CutsNone limit.toNat rest)
  waiting : rpc.operationFinished = false → ∃ frames rest, Cuts limit.toNat received frames rest ∧
    List.Forall₂ (Delivers limit) frames (messagesReceived rpc.trace) ∧
    (rpc.context = true ∨ rpc.dataLoops ≠ [] → rpc.grpcDataParser.container = rest) ∧
    (rpc.context = true → rpc.dataLoops = [] → CutsNone limit.toNat rest)

variable {env : Environment} {options : HandlerOptions} {limit : UInt32} {received : Bytes}
  {ended : Bool} {rpc next : Rpc} {input : Input}

/-- An unfinished operation has signalled no end. -/
theorem Reception.no_finished (h : Reception env limit received ended rpc)
    (hopen : rpc.operationFinished = false) (status : QGrpcStatus) : .finished status ∉ rpc.trace := by
  intro hmem
  rw [h.ending.finished.mpr ⟨status, hmem⟩] at hopen
  cases hopen

/-- Before the operation has finished no success was signalled. -/
theorem Reception.neverOk_of_open (h : Reception env limit received ended rpc)
    (hopen : rpc.operationFinished = false) : NeverOk rpc.trace :=
  fun status hmem => absurd hmem (h.no_finished hopen status)

/-- A step that may not signal a message leaves the messages as they are. -/
theorem Effect.messages {admits : List Event → Event → Prop} (heffect : Effect admits rpc next)
    (hadmits : ∀ quiet payload, ¬ admits quiet (.messageReceived payload)) :
    messagesReceived next.trace = messagesReceived rpc.trace ∧
      ((∀ status, .finished status ∉ rpc.trace) →
        messagesReceived (untilFinished next.trace) = messagesReceived rpc.trace) := by
  rcases heffect with ⟨quiet, htrace, hquiet, -⟩ | ⟨quiet, e, htrace, hquiet, -, hadmitted, -⟩
  · have hsignalled : ∀ e ∈ quiet, e.signalled = false := fun e he =>
      Event.signalled_of_transport (hquiet e he)
    have hnone : ∀ status, .finished status ∉ quiet := fun status hmem => by
      cases hsignalled _ hmem
    have hall : untilFinished quiet = quiet := by
      simpa [untilFinished] using untilFinished_append [] hnone
    refine ⟨?_, fun hopen => ?_⟩
    · rw [htrace, messagesReceived_append, messagesReceived_quiet hsignalled, List.append_nil]
    · rw [htrace, untilFinished_append _ hopen, hall, messagesReceived_append,
        messagesReceived_quiet hsignalled, List.append_nil]
  · have hsignalled : ∀ e' ∈ quiet, e'.signalled = false := fun e' he' => (hquiet e' he').1
    have hnone : ∀ status, .finished status ∉ quiet := fun status hmem => by
      cases hsignalled _ hmem
    have hmessage : messagesReceived [e] = [] ∧ messagesReceived (untilFinished [e]) = [] := by
      cases e with
      | messageReceived payload => exact absurd hadmitted (hadmits quiet payload)
      | _ => exact ⟨rfl, rfl⟩
    rw [htrace, List.append_assoc]
    refine ⟨?_, fun hopen => ?_⟩
    · rw [messagesReceived_append, messagesReceived_append, messagesReceived_quiet hsignalled,
        hmessage.1, List.append_nil, List.append_nil]
    · rw [untilFinished_append _ hopen, untilFinished_append _ hnone, messagesReceived_append,
        messagesReceived_append, messagesReceived_quiet hsignalled, hmessage.2, List.append_nil,
        List.append_nil]

/-- A step signals a message only where the data handler runs. -/
theorem step_messages (h : Reception env limit received ended rpc)
    (hstep : step env options rpc input = some next)
    (hother : ∀ reads endStream rest, input = .resume reads →
      rpc.stack ≠ .dataReceived endStream :: rest) :
    messagesReceived next.trace = messagesReceived rpc.trace ∧
      ((∀ status, .finished status ∉ rpc.trace) →
        messagesReceived (untilFinished next.trace) = messagesReceived rpc.trace) := by
  refine (step_effect env options rpc next input h.ending.tracked hstep).messages
    fun quiet payload hadmits => ?_
  obtain ⟨reads, endStream, rest, -, -, -, hinput, hstack, -⟩ := deliversFrame_step hadmits hstep
  exact hother reads endStream rest hinput hstack

/-- An RPC of which something is known while its operation is unfinished. -/
theorem Delivery.of_waiting (h : Reception env limit received ended rpc)
    (hwaiting : rpc.operationFinished = false → ∃ frames rest,
      Cuts limit.toNat received frames rest ∧
      List.Forall₂ (Delivers limit) frames (messagesReceived rpc.trace) ∧
      (rpc.context = true ∨ rpc.dataLoops ≠ [] → rpc.grpcDataParser.container = rest) ∧
      (rpc.context = true → rpc.dataLoops = [] → CutsNone limit.toNat rest))
    (hopen : rpc.operationFinished = false) : Delivery limit received rpc := by
  obtain ⟨frames, rest, hcuts, hmessages, -⟩ := hwaiting hopen
  refine ⟨⟨frames, rest, hcuts, ?_, fun hok => absurd (h.neverOk_of_open hopen) hok⟩, hwaiting⟩
  have hall : untilFinished rpc.trace = rpc.trace := by
    simpa [untilFinished] using untilFinished_append [] (h.no_finished hopen)
  rwa [hall]

/-- Nothing counts behind the end of an operation. -/
theorem Delivery.finished (hdelivery : Delivery limit received rpc)
    (h : Reception env limit received ended rpc) (hinput : input.fromStream = true → ended = false)
    (hstep : step env options rpc input = some next) (hdone : rpc.operationFinished = true) :
    Delivery limit (received ++ input.data) next := by
  have hnext := step_operationFinished h.ending.tracked hstep hdone
  refine ⟨?_, fun hopen => by rw [hopen] at hnext; cases hnext⟩
  obtain ⟨frames, rest, hcuts, hmessages, hnone⟩ := hdelivery.early
  obtain ⟨status, hstatus⟩ := h.ending.finished.mp hdone
  obtain ⟨later, htrace⟩ : ∃ later, next.trace = rpc.trace ++ later := by
    rcases step_effect env options rpc next input h.ending.tracked hstep with
      ⟨quiet, htrace, -⟩ | ⟨quiet, e, htrace, -⟩
    · exact ⟨quiet, htrace⟩
    · exact ⟨quiet ++ [e], by rw [htrace, List.append_assoc]⟩
  refine ⟨frames, rest ++ input.data, hcuts.append _, ?_, fun hok => ?_⟩
  · rwa [htrace, untilFinished_append_of_finished later hstatus]
  · have hsucceeded : rpc.Succeeded limit received ended := by
      rcases h.outcome with hfailed | hunrejected | hsucceeded
      · exact absurd (hfailed.step h.ending.tracked hstep).1 hok
      · exact absurd (Failed.step ⟨hunrejected.neverOk, .inl hdone⟩ h.ending.tracked hstep).1 hok
      · exact hsucceeded
    have hdata : input.data = [] := by
      cases input with
      | dataReceived data endStream =>
        have hended := hinput rfl
        rw [hsucceeded.ended] at hended
        cases hended
      | _ => rfl
    rw [hdata, List.append_nil]
    refine hnone fun hnever => hok ?_
    exact (Failed.step ⟨hnever, .inl hdone⟩ h.ending.tracked hstep).1

/-- The data handler takes in what its stream delivers. -/
theorem Delivery.dataReceived {data : Bytes} {endStream : Bool}
    (hdelivery : Delivery limit received rpc) (h : Reception env limit received ended rpc)
    (hnext : Reception env limit (received ++ data) (ended || endStream) next)
    (hopen : rpc.operationFinished = false)
    (hstep : step env options rpc (.dataReceived data endStream) = some next) :
    Delivery limit (received ++ data) next := by
  obtain ⟨frames, rest, hcuts, hmessages, hrest, -⟩ := hdelivery.waiting hopen
  simp only [step] at hstep
  split at hstep <;> cases hstep
  rename_i hready
  have hloops : rpc.dataLoops = [] := by
    rw [dataLoops, ((atEventLoop_iff rpc).mp hready.1).1]
    rfl
  unfold Rpc.dataReceived at hnext ⊢
  cases hcontext : rpc.context with
  | false =>
    simp only [hcontext, Bool.false_eq_true, not_false_eq_true, if_true] at hnext ⊢
    refine .of_waiting hnext (fun _ => ⟨frames, rest ++ data, hcuts.append data, hmessages, ?_, ?_⟩) hopen
    · rintro (hctx | hbusy)
      · rw [hcontext] at hctx
        cases hctx
      · exact absurd hloops hbusy
    · intro hctx
      rw [hcontext] at hctx
      cases hctx
  | true =>
    have hrunning : rpc.state ≠ .cancelled := by
      intro hcancelled
      rcases h.closed (by rw [hcancelled]; rfl) with hdone | hlost
      · rw [hopen] at hdone
        cases hdone
      · rw [hcontext] at hlost
        cases hlost
    simp only [hcontext, not_true_eq_false, if_false, hrunning] at hnext ⊢
    refine .of_waiting hnext (fun _ => ⟨frames, rest ++ data, hcuts.append data, hmessages, ?_, ?_⟩) hopen
    · intro _
      simp only [Rpc.push, feed]
      rw [hrest (.inl hcontext)]
    · intro _ hidle
      simp [dataLoops, push, Continuation.receives] at hidle

/-- All other code leaves the bytes in the buffer alone. -/
theorem Delivery.beside (hdelivery : Delivery limit received rpc)
    (h : Reception env limit received ended rpc)
    (hnext : Reception env limit (received ++ input.data) (ended || input.endsStream) next)
    (hopen : rpc.operationFinished = false)
    (hdata : ∀ data endStream, input ≠ .dataReceived data endStream)
    (hloop : ∀ reads endStream rest, input = .resume reads →
      rpc.stack ≠ .dataReceived endStream :: rest)
    (hstep : step env options rpc input = some next) :
    Delivery limit (received ++ input.data) next := by
  have hbeside := step_beside env options rpc next input hdata hloop hstep
  obtain ⟨hmessages, huntil⟩ := step_messages h hstep hloop
  have hempty : input.data = [] := by
    cases input with
    | dataReceived data endStream => exact absurd rfl (hdata data endStream)
    | _ => rfl
  obtain ⟨frames, rest, hcuts, hall, hrest, hnone⟩ := hdelivery.waiting hopen
  rw [hempty, List.append_nil] at hnext ⊢
  cases hdone : next.operationFinished with
  | false =>
    refine .of_waiting hnext (fun _ => ⟨frames, rest, hcuts, by rwa [hmessages], ?_, ?_⟩) hdone
    · rw [hbeside.parser, hbeside.loops]
      refine fun hbusy => hrest (hbusy.imp_left fun hctx => ?_)
      by_contra hlost
      rw [hbeside.context (by simpa using hlost)] at hctx
      cases hctx
    · rw [hbeside.loops]
      refine fun hctx => hnone ?_
      by_contra hlost
      rw [hbeside.context (by simpa using hlost)] at hctx
      cases hctx
  | true =>
    refine ⟨⟨frames, rest, hcuts, by rwa [huntil (h.no_finished hopen)], fun hok => ?_⟩, fun hunfinished => ?_⟩
    · have hsucceeded : next.Succeeded limit received (ended || input.endsStream) := by
        rcases hnext.outcome with hfailed | hunrejected | hsucceeded
        · exact absurd hfailed.1 hok
        · exact absurd hunrejected.neverOk hok
        · exact hsucceeded
      refine hnone ?_ (hbeside.loops ▸ hsucceeded.loops)
      by_contra hlost
      exact hok (Failed.step ⟨h.neverOk_of_open hopen, .inr (by simpa using hlost)⟩ h.ending.tracked
        hstep).1
    · rw [hdone] at hunfinished
      cases hunfinished

/-- A payload that is passed on is what its frame delivers. -/
theorem delivers_framePayload {frame : Frame} {reads : List ReadResult} {payload : Bytes}
    (hlimit : rpc.grpcDataParser.maxReceiveSize = limit)
    (h : rpc.framePayload frame reads = .ok payload) : Delivers limit frame payload := by
  unfold framePayload at h
  unfold Delivers
  split at h
  · rename_i hcompressed
    rw [if_pos hcompressed]
    split at h
    · cases h
    · exact ⟨reads, hlimit ▸ h⟩
  · rename_i hplain
    rw [if_neg hplain]
    exact (Except.ok.inj h).symm

/-- One round of the data handler signals the next frame, or ends with what has been signalled. -/
theorem Delivery.receiveNext {reads : List ReadResult} {endStream : Bool} {rest : List Continuation}
    (hdelivery : Delivery limit received rpc) (h : Reception env limit received ended rpc)
    (hnext : Reception env limit received ended next) (hopen : rpc.operationFinished = false)
    (hsignals : options.rpcType.signalsMessageReceived = true)
    (hstack : rpc.stack = .dataReceived endStream :: rest)
    (hstep : step env options rpc (.resume reads) = some next) : Delivery limit received next := by
  have hidle : rest.filter Continuation.receives = [] := by
    have hloops := h.loops
    rw [dataLoops_of_top hstack] at hloops
    rcases hloops with hnone | ⟨endStream', hone, -⟩
    · cases hnone
    · exact (List.cons.inj hone).2
  have hbuffer : rpc.grpcDataParser = ⟨limit, rpc.grpcDataParser.container⟩ := by
    rw [← h.maxReceiveSize]
  obtain ⟨frames, left, hcuts, hmessages, hleft, -⟩ := hdelivery.waiting hopen
  have hcontainer : rpc.grpcDataParser.container = left :=
    hleft (.inr (by rw [dataLoops_of_top hstack]; simp))
  have hfinish (parser : GrpcDataParser) (status : QGrpcStatus)
      (hcomplete : status.code = .ok → CutsNone limit.toNat left)
      (heq : next = ({ rpc with stack := rest, grpcDataParser := parser } : Rpc).finish status) :
      Delivery limit received next := by
    have heffect := finish_effect ({ rpc with stack := rest, grpcDataParser := parser }) status
    rw [← heq] at heffect
    have htrace := heffect.messages fun quiet payload hfinishes => by cases hfinishes.2
    have huntil := htrace.2 (h.no_finished hopen)
    refine ⟨⟨frames, left, hcuts, by rwa [huntil], fun hok => ?_⟩, fun hunfinished => ?_⟩
    · by_cases hstatus : status.code = .ok
      · exact hcomplete hstatus
      · refine absurd ?_ hok
        rw [heq]
        exact finish_neverOk hstatus (h.neverOk_of_open hopen)
    · have hlost : next.context = false := by
        have hbeside := finish_beside ({ rpc with stack := rest, grpcDataParser := parser }) status
        rw [← heq] at hbeside
        by_cases hstate : rpc.state = .finished
        · rcases h.closed (by rw [hstate]; rfl) with hdone | hlost
          · rw [hopen] at hdone
            cases hdone
          · exact hbeside.context hlost
        · have hsettles := finish_settles ({ rpc with stack := rest, grpcDataParser := parser })
            status hstate
          rw [← heq, hunfinished] at hsettles
          exact hbeside.context (hsettles.resolve_left (by simp))
      have hloops : next.dataLoops = [] := by
        rw [heq, (finish_beside _ status).loops]
        exact hidle
      refine ⟨frames, left, hcuts, by rw [htrace.1]; exact hmessages, ?_, ?_⟩
      · rintro (hctx | hbusy)
        · rw [hlost] at hctx
          cases hctx
        · exact absurd hloops hbusy
      · intro hctx
        rw [hlost] at hctx
        cases hctx
  simp only [step, resume, hstack, Option.some.injEq] at hstep
  unfold Rpc.receiveNext at hstep
  dsimp only at hstep
  split at hstep
  · rename_i parser hparse
    have hnone : CutsNone limit.toNat left := by
      rw [← hcontainer]
      refine cutsNone_of_needMoreData ?_
      rw [← hbuffer, hparse]
    obtain rfl : parser = rpc.grpcDataParser := by
      rcases (parseNextFrame_error _ _ _ hparse).2 with ⟨-, hsame⟩ | ⟨⟨size, hsize, -⟩, -⟩
      · exact hsame
      · cases hsize
    split at hstep
    · subst hstep
      refine .of_waiting hnext (fun _ => ⟨frames, left, hcuts, hmessages, fun _ => hcontainer,
        fun _ _ => hnone⟩) hopen
    · split at hstep
      · exact hfinish _ _ (fun _ => hnone) hstep.symm
      · exact hfinish _ _ (fun _ => hnone) hstep.symm
  · exact hfinish _ _ (fun hok => by cases hok) hstep.symm
  · rename_i frame parser hparse
    split at hstep
    · rename_i status hpayload
      exact hfinish _ _ (fun hok => absurd hok (framePayload_error_ne_ok _ _ _ _ hpayload)) hstep.symm
    · rename_i payload hpayload
      have hpassed : rpc.framePayload frame reads = .ok payload → Delivers limit frame payload :=
        delivers_framePayload h.maxReceiveSize
      have hfirst : Cuts limit.toNat left [frame] parser.container := by
        rw [hbuffer, hcontainer] at hparse
        exact cuts_of_parseNextFrame hparse
      unfold messageReceived at hstep
      rw [if_pos hsignals] at hstep
      subst hstep
      refine .of_waiting hnext (fun _ => ⟨frames ++ [frame], parser.container, hcuts.trans hfirst, ?_,
        fun _ => rfl, fun _ hnone => ?_⟩) hopen
      · have htrace : messagesReceived (rpc.trace ++ [.messageReceived payload]) =
            messagesReceived rpc.trace ++ [payload] := messagesReceived_append _ _
        change List.Forall₂ (Delivers limit) (frames ++ [frame])
          (messagesReceived (rpc.trace ++ [.messageReceived payload]))
        rw [htrace]
        exact List.rel_append hmessages (.cons (hpassed hpayload) .nil)
      · simp [dataLoops, push, emit, Continuation.receives] at hnone

/-- A step delivers the messages of the bytes that it brings. -/
theorem Delivery.after (hdelivery : Delivery limit received rpc)
    (h : Reception env limit received ended rpc) (hinput : input.fromStream = true → ended = false)
    (hsignals : options.rpcType.signalsMessageReceived = true)
    (hstep : step env options rpc input = some next) :
    Delivery limit (received ++ input.data) next := by
  have hnext := h.after hinput hstep
  cases hopen : rpc.operationFinished with
  | true => exact hdelivery.finished h hinput hstep hopen
  | false =>
    by_cases hdata : ∃ data endStream, input = .dataReceived data endStream
    · obtain ⟨data, endStream, rfl⟩ := hdata
      exact hdelivery.dataReceived h hnext hopen hstep
    by_cases hloop : ∃ reads endStream rest, input = .resume reads ∧
        rpc.stack = .dataReceived endStream :: rest
    · obtain ⟨reads, endStream, rest, rfl, hstack⟩ := hloop
      simp only [Input.data, Input.endsStream, List.append_nil, Bool.or_false] at hnext ⊢
      exact hdelivery.receiveNext h hnext hopen hsignals hstack hstep
    · exact hdelivery.beside h hnext hopen (fun data endStream heq => hdata ⟨_, _, heq⟩)
        (fun reads endStream rest heq hstack => hloop ⟨_, _, _, heq, hstack⟩) hstep

/-- An RPC that has received nothing has signalled nothing. -/
theorem starts_delivery (env : Environment) (options : HandlerOptions) (start : Rpc)
    (hstart : Starts options start) : Delivery options.maxReceiveSize [] start := by
  have hreception := starts_reception env options start hstart
  have hnothing : messagesReceived start.trace = [] ∧
      messagesReceived (untilFinished start.trace) = [] ∧ start.grpcDataParser.container = [] ∧
      NeverOk start.trace := by
    cases hstart with
    | constructed data compressed =>
      have heffect := writeMessage_effect options (fresh options) data compressed
      have hmessages := heffect.messages fun quiet payload hfails => by
        obtain ⟨-, failure, -, heq⟩ := hfails
        cases heq
      refine ⟨hmessages.1, hmessages.2 (by simp [fresh]), ?_, ?_⟩
      · rw [(writeMessage_beside options (fresh options) data compressed).parser]
        rfl
      · refine heffect.neverOk (by simp [NeverOk, fresh]) fun quiet other hfails => ?_
        obtain ⟨-, failure, hfailure, heq⟩ := hfails
        obtain rfl : other = failure := by simpa using heq
        exact hfailure
    | turnedDown status h => exact ⟨rfl, rfl, rfl, by simp [NeverOk, fresh]⟩
  obtain ⟨hall, huntil, hcontainer, hnever⟩ := hnothing
  refine ⟨⟨[], [], .nil [], by rw [huntil]; exact .nil, fun hok => absurd hnever hok⟩,
    fun _ => ⟨[], [], .nil [], by rw [hall]; exact .nil, fun _ => hcontainer, fun _ _ => ?_⟩⟩
  intro frames rest hcuts
  cases hcuts
  rfl

/-- A run delivers the messages of all its bytes. -/
theorem run_delivery {inputs : List Input} {final : Rpc}
    (hsignals : options.rpcType.signalsMessageReceived = true)
    (h : Reception env limit received ended rpc) (hdelivery : Delivery limit received rpc)
    (honce : EndsOnce inputs) (hended : ended = true → ∀ i ∈ inputs, i.fromStream = false)
    (hrun : Transition.run (step env options) rpc inputs = some final) :
    Delivery limit (received ++ streamData inputs) final := by
  induction inputs generalizing rpc received ended with
  | nil =>
    obtain rfl : rpc = final := by simpa [Transition.run] using hrun
    simpa [streamData] using hdelivery
  | cons input inputs ih =>
    rw [Transition.run_cons, Option.bind_eq_some_iff] at hrun
    obtain ⟨next, hstep, hrest⟩ := hrun
    have hinput : input.fromStream = true → ended = false := by
      intro hstream
      by_contra hlast
      rw [hended (by simpa using hlast) input List.mem_cons_self] at hstream
      cases hstream
    obtain ⟨hfirst, honce⟩ := List.pairwise_cons.mp honce
    have hlater := ih (h.after hinput hstep) (hdelivery.after h hinput hsignals hstep) honce (by
      intro hdone i hi
      rcases Bool.or_eq_true_iff.mp hdone with hdone | hdone
      · exact hended hdone i (List.mem_cons_of_mem _ hi)
      · exact hfirst i hi hdone) hrest
    simpa [streamData] using hlater

end Rpc

/-- In every run of a stream the messages signalled until it finishes are those of the first frames
received, in order. Once it has finished with success, or while it waits for more data, no complete
frame is missing among them. -/
theorem delivers_inOrder (env : Environment) (options : HandlerOptions) (start final : Rpc)
    (inputs : List Input) (hsignals : options.rpcType.signalsMessageReceived = true)
    (hstart : Rpc.Starts options start) (honce : EndsOnce inputs)
    (hrun : Transition.run (Rpc.step env options) start inputs = some final) :
    ∃ frames rest, Cuts options.maxReceiveSize.toNat (streamData inputs) frames rest ∧
      List.Forall₂ (Delivers options.maxReceiveSize) frames
        (messagesReceived (untilFinished final.trace)) ∧
      (¬ NeverOk final.trace ∨ final.operationFinished = false ∧ final.context = true ∧
          final.dataLoops = [] → CutsNone options.maxReceiveSize.toNat rest) := by
  have hreception := Rpc.starts_reception env options start hstart
  have hdelivery : Rpc.Delivery options.maxReceiveSize (streamData inputs) final :=
    Rpc.run_delivery hsignals hreception (Rpc.starts_delivery env options start hstart) honce
      (fun hended => by cases hended) hrun
  by_cases hwaits : final.operationFinished = false ∧ final.context = true ∧ final.dataLoops = []
  · obtain ⟨hopen, hcontext, hloops⟩ := hwaits
    obtain ⟨frames, rest, hcuts, hmessages, -, hnone⟩ := hdelivery.waiting hopen
    refine ⟨frames, rest, hcuts, ?_, fun _ => hnone hcontext hloops⟩
    have hending : Rpc.Ending env final := Transition.run_invariant (Rpc.step env options)
      (Rpc.Ending env) (fun rpc input next h hstep => Rpc.step_ending env options rpc next input h hstep)
      start final inputs hreception.ending hrun
    have hsilent : ∀ status, .finished status ∉ final.trace := fun status hmem => by
      rw [hending.finished.mpr ⟨status, hmem⟩] at hopen
      cases hopen
    have hall : untilFinished final.trace = final.trace := by
      simpa [untilFinished] using untilFinished_append [] hsilent
    rwa [hall]
  · obtain ⟨frames, rest, hcuts, hmessages, hnone⟩ := hdelivery.early
    exact ⟨frames, rest, hcuts, hmessages, fun hdone => hnone (hdone.resolve_right hwaits)⟩

/-- The server sends two messages in three parts. -/
def answersInParts : List Input :=
  answered ++ [.dataReceived [0, 0, 0] false, .resume [], .dataReceived [0, 1, 7, 0, 0, 0] false,
    .resume [], .slotReturned, .resume [], .dataReceived [0, 2, 8, 9] false, .resume [],
    .slotReturned, .resume []]

/-- Both are signalled, as the first two frames of what was received. -/
theorem delivers_answersInParts :
    ∃ final, Transition.run (Rpc.step plainEnvironment bidiOptions) startedBidi answersInParts =
        some final ∧ messagesReceived (untilFinished final.trace) = [[7], [8, 9]] ∧
      ∃ frames rest, Cuts 4096 (streamData answersInParts) frames rest ∧
        List.Forall₂ (Delivers bidiOptions.maxReceiveSize) frames
          (messagesReceived (untilFinished final.trace)) := by
  obtain ⟨final, hrun⟩ := Option.isSome_iff_exists.mp
    (show (Transition.run (Rpc.step plainEnvironment bidiOptions) startedBidi answersInParts).isSome =
      true by decide)
  have hmessages : (Transition.run (Rpc.step plainEnvironment bidiOptions) startedBidi
      answersInParts).map (fun rpc => messagesReceived (untilFinished rpc.trace)) =
        some [[7], [8, 9]] := by decide
  rw [hrun, Option.map_some, Option.some.injEq] at hmessages
  obtain ⟨frames, rest, hcuts, hdelivers, -⟩ := delivers_inOrder plainEnvironment bidiOptions
    startedBidi final answersInParts rfl (.constructed [] none) (by decide) hrun
  exact ⟨final, hrun, hmessages, frames, rest, hcuts, hdelivers⟩

end QtGrpc.Http2
