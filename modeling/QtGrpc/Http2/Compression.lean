import QtGrpc.Http2.Run
import QtGrpc.Http2.FrameStream

/-!
# Compressed messages

`GrpcCompressionHelper` compresses an outgoing message into the buffer that is to be enqueued, and
`Http2Handler::writeMessage` sends the message as it is whenever that does not succeed. What the
library answers, and what it leaves in the space it was offered, is an input of each write.
-/

namespace QtGrpc.Http2

open ByteOrder
open Rpc (GrpcMaxPayloadSize CompressionMinPayloadBytes)

/-- What `deflate` returns. -/
inductive DeflateResult where
  | ok | bufError | streamEnd | failed
deriving DecidableEq, Repr

/-- A call of `deflate`: its result, what the space it was offered contains behind it, and how many
bytes of it were written. -/
structure DeflateCall where
  result : DeflateResult
  space : Bytes
  written : Nat
deriving DecidableEq

/-- A `z_stream`, with what went in and came out since it was initialized or reset. -/
structure ZStream where
  given : Bytes := []
  produced : Bytes := []
deriving DecidableEq

/-- The stream behind a call. -/
def ZStream.deflate (stream : ZStream) (input : Bytes) (call : DeflateCall) : ZStream :=
  { given := stream.given ++ input, produced := stream.produced ++ call.space.take call.written }

/-- `total_out`. -/
def ZStream.totalOut (stream : ZStream) : Nat := stream.produced.length

/-- What the library promises of a call: it keeps to the space, and a stream that ends is a complete
encoding of what went in. -/
structure DeflateCall.Valid (IsEncoding : Bytes → Bytes → Prop) (stream : ZStream) (input : Bytes)
    (availOut : Nat) (call : DeflateCall) : Prop where
  space : call.space.length = availOut
  written : call.written ≤ availOut
  complete : call.result = .streamEnd →
    IsEncoding (stream.deflate input call).given (stream.deflate input call).produced

/-- What lies outside of the handler in one write: whether the library sets up and resets a stream,
its call, and the contents of memory that is not initialized. -/
structure WriteOutcome where
  create : Bool
  reset : Bool
  call : DeflateCall
  memory : Nat → UInt8

/-- `QByteArray(size, Qt::Uninitialized)`. -/
def WriteOutcome.uninitialized (outcome : WriteOutcome) (size : Nat) : Bytes :=
  (List.range size).map outcome.memory

/-- `QByteArray::resize`, where bytes that are added are zero. -/
def resize (bytes : Bytes) (size : Nat) : Bytes :=
  bytes.take size ++ List.replicate (size - bytes.length) 0

/-- Bytes copied into an array at a position. -/
def overwrite (target : Bytes) (position : Nat) (bytes : Bytes) : Bytes :=
  target.take position ++ bytes ++ target.drop (position + bytes.length)

/-- `GrpcCompressionHelper::Error`. -/
inductive CompressionError where
  | skipped | broken
deriving DecidableEq, Repr

/-- `GrpcCompressionHelper`. -/
structure GrpcCompressionHelper where
  stream : ZStream := {}
  needsReset : Bool := false
deriving DecidableEq

namespace GrpcCompressionHelper

/-- `create`. -/
def create (outcome : WriteOutcome) : Option GrpcCompressionHelper :=
  if outcome.create then some {} else none

/-- The stream that `tryCompressMessage` calls `deflate` on, unless it cannot be reset. -/
def prepare (helper : GrpcCompressionHelper) (outcome : WriteOutcome) : Option ZStream :=
  if helper.needsReset then if outcome.reset then some {} else none
  else some helper.stream

/-- `tryCompressMessage`: the result, the output buffer and the helper afterwards. -/
def tryCompressMessage (helper : GrpcCompressionHelper) (input out : Bytes)
    (outcome : WriteOutcome) : Except CompressionError Nat × Bytes × GrpcCompressionHelper :=
  match helper.prepare outcome with
  | none => (.error .broken, out, helper)
  | some stream =>
    let out := outcome.uninitialized GrpcMessageSizeHeaderSize ++ outcome.call.space
    let called := stream.deflate input outcome.call
    let helper : GrpcCompressionHelper := { stream := called, needsReset := true }
    match outcome.call.result with
    | .ok | .bufError => (.error .skipped, out, helper)
    | .failed => (.error .broken, out, helper)
    | .streamEnd =>
      (.ok called.totalOut, resize out (GrpcMessageSizeHeaderSize + called.totalOut), helper)

end GrpcCompressionHelper

/-- The locals of `writeMessage` behind the attempt to compress, and the compressor. -/
structure Attempt where
  compressedFlag : UInt8
  msg : Bytes
  payloadSize : Nat
  compressor : Option GrpcCompressionHelper
deriving DecidableEq

/-- The attempt of `writeMessage` to compress a message. -/
def attemptCompression (requestEncoding : CompressionAlgorithm)
    (compressor : Option GrpcCompressionHelper) (data : Bytes) (outcome : WriteOutcome) : Attempt :=
  if requestEncoding ≠ .identity ∧ CompressionMinPayloadBytes ≤ data.length then
    match compressor.or (GrpcCompressionHelper.create outcome) with
    | none => { compressedFlag := 0, msg := [], payloadSize := data.length, compressor := none }
    | some helper =>
      let result := helper.tryCompressMessage data [] outcome
      match result.1 with
      | .ok payloadSize =>
        { compressedFlag := GrpcCompressedFlag, msg := result.2.1, payloadSize,
          compressor := some result.2.2 }
      | .error .skipped =>
        { compressedFlag := 0, msg := result.2.1, payloadSize := data.length,
          compressor := some result.2.2 }
      | .error .broken =>
        { compressedFlag := 0, msg := result.2.1, payloadSize := data.length, compressor := none }
  else { compressedFlag := 0, msg := [], payloadSize := data.length, compressor }

/-- The frame that `writeMessage` makes of the attempt. -/
def Attempt.frame (attempt : Attempt) (data : Bytes) (outcome : WriteOutcome) : Bytes :=
  let msg :=
    if attempt.compressedFlag = 0 then
      overwrite (outcome.uninitialized (GrpcMessageSizeHeaderSize + data.length))
        GrpcMessageSizeHeaderSize data
    else attempt.msg
  overwrite (msg.set 0 attempt.compressedFlag) 1 (toBigEndian 4 attempt.payloadSize)

/-- The stream on which an attempt calls `deflate`, if there is one. -/
def deflateStream (requestEncoding : CompressionAlgorithm)
    (compressor : Option GrpcCompressionHelper) (data : Bytes) (outcome : WriteOutcome) :
    Option ZStream :=
  if requestEncoding ≠ .identity ∧ CompressionMinPayloadBytes ≤ data.length then
    (compressor.or (GrpcCompressionHelper.create outcome)).bind fun helper => helper.prepare outcome
  else none

/-- The compressed message of an attempt that succeeds. -/
def compressedPayload (requestEncoding : CompressionAlgorithm)
    (compressor : Option GrpcCompressionHelper) (data : Bytes) (outcome : WriteOutcome) :
    Option Bytes :=
  if (deflateStream requestEncoding compressor data outcome).isSome ∧
      outcome.call.result = .streamEnd then
    some (outcome.call.space.take outcome.call.written)
  else none

/-- An RPC with the compressor of its handler, and the messages that were enqueued with the frames
they were enqueued as. -/
structure Writer where
  rpc : Rpc
  compressor : Option GrpcCompressionHelper := none
  enqueued : List (Bytes × Bytes) := []

namespace Writer

/-- `Http2Handler::writeMessage`. -/
def writeMessage (options : HandlerOptions) (writer : Writer) (data : Bytes)
    (outcome : WriteOutcome) : Writer :=
  let rpc := writer.rpc
  if rpc.writesDoneSent ∨ rpc.state.ended ∨ rpc.isStreamClosedForSending then writer
  else if GrpcMaxPayloadSize < data.length then
    { writer with rpc := rpc.finish ⟨.resourceExhausted, "Outgoing message size (" ++
        toString data.length ++ " bytes) exceeds configured limit (" ++
        toString GrpcMaxPayloadSize ++ " bytes)"⟩ }
  else
    let attempt := attemptCompression options.requestEncoding writer.compressor data outcome
    let msg := attempt.frame data outcome
    { rpc := (({ rpc with
        queuedBytes := rpc.queuedBytes + UInt64.ofNat msg.length
        bytesToWrite := rpc.bytesToWrite + UInt64.ofNat msg.length
        queue := rpc.queue ++ [msg] }).emit (.writeMessage msg)).processQueue
          options.rpcType.endStreamAtFirstData
      compressor := attempt.compressor
      enqueued := writer.enqueued ++ [(data, msg)] }

/-- What can happen next: a message is written, or anything else. -/
inductive Input where
  | write (data : Bytes) (outcome : WriteOutcome)
  | other (input : Http2.Input)

def isWriteMessage : Http2.Input → Bool
  | .writeMessage _ _ => true
  | _ => false

/-- Take one input, if it is possible now. -/
def step (env : Environment) (options : HandlerOptions) (writer : Writer) : Input → Option Writer
  | .write data outcome =>
    if writer.rpc.userMayCall ∧ ¬ options.rpcType.endStreamAtFirstData then
      some (if writer.rpc.channelAlive ∧ writer.rpc.alive then
        writer.writeMessage options data outcome else writer)
    else none
  | .other input =>
    if isWriteMessage input then none
    else (writer.rpc.step env options input).map fun rpc => { writer with rpc }

/-- The handler is constructed with its initial message. -/
def constructed (options : HandlerOptions) (data : Bytes) (outcome : WriteOutcome) : Writer :=
  ({ rpc := Rpc.fresh options } : Writer).writeMessage options data outcome

/-- A message is not refused. -/
def accepts (writer : Writer) (data : Bytes) : Prop :=
  ¬ (writer.rpc.writesDoneSent ∨ writer.rpc.state.ended ∨ writer.rpc.isStreamClosedForSending) ∧
    data.length ≤ GrpcMaxPayloadSize

instance (writer : Writer) (data : Bytes) : Decidable (writer.accepts data) :=
  inferInstanceAs (Decidable (_ ∧ _))

/-- The stream on which a write calls `deflate`, if it tries to compress the message. -/
def deflates (options : HandlerOptions) (writer : Writer) (data : Bytes) (outcome : WriteOutcome) :
    Option ZStream :=
  deflateStream options.requestEncoding writer.compressor data outcome

/-- The library keeps its promises in a write. -/
def Promised (IsEncoding : Bytes → Bytes → Prop) (options : HandlerOptions) (writer : Writer)
    (data : Bytes) (outcome : WriteOutcome) : Prop :=
  writer.accepts data → ∀ stream, writer.deflates options data outcome = some stream →
    outcome.call.Valid IsEncoding stream data data.length

/-- Compression succeeds, but the encoding is as long as the message. -/
def GainsNothing (options : HandlerOptions) (writer : Writer) (data : Bytes)
    (outcome : WriteOutcome) : Prop :=
  writer.accepts data ∧ (writer.deflates options data outcome).isSome ∧
    outcome.call.result = .streamEnd ∧ outcome.call.written = data.length

instance (options : HandlerOptions) (writer : Writer) (data : Bytes) (outcome : WriteOutcome) :
    Decidable (writer.GainsNothing options data outcome) :=
  inferInstanceAs (Decidable (_ ∧ _ ∧ _ ∧ _))

/-- An input at which the library keeps its promises. -/
def InputPromised (IsEncoding : Bytes → Bytes → Prop) (options : HandlerOptions) (writer : Writer) :
    Input → Prop
  | .write data outcome =>
    writer.rpc.channelAlive ∧ writer.rpc.alive → writer.Promised IsEncoding options data outcome
  | .other _ => True

/-- An input that writes no message whose encoding is as long as the message. -/
def InputGains (options : HandlerOptions) (writer : Writer) : Input → Prop
  | .write data outcome =>
    writer.rpc.channelAlive ∧ writer.rpc.alive → ¬ writer.GainsNothing options data outcome
  | .other _ => True

end Writer

/-- A frame tells its length, and is either the compressed message, if that is shorter, or the
message itself. -/
structure SelfConsistent (IsEncoding : Bytes → Bytes → Prop) (data frame : Bytes) : Prop where
  hasHeader : GrpcMessageSizeHeaderSize ≤ frame.length
  length_eq : ofBigEndian ((frame.drop 1).take 4) =
    (frame.drop GrpcMessageSizeHeaderSize).length
  compressed : frame.head? = some GrpcCompressedFlag →
    IsEncoding data (frame.drop GrpcMessageSizeHeaderSize) ∧
      (frame.drop GrpcMessageSizeHeaderSize).length < data.length
  uncompressed : frame.head? ≠ some GrpcCompressedFlag →
    frame.head? = some 0 ∧ frame.drop GrpcMessageSizeHeaderSize = data

/-! ## One attempt -/

/-- A compressor that was used before is reset before it is used again. -/
def NeedsReset (compressor : Option GrpcCompressionHelper) : Prop :=
  ∀ helper ∈ compressor, helper.needsReset = true

/-- So every message is compressed on a stream that nothing has gone into. -/
theorem deflateStream_eq {requestEncoding : CompressionAlgorithm}
    {compressor : Option GrpcCompressionHelper} {data : Bytes} {outcome : WriteOutcome}
    {stream : ZStream} (hcompressor : NeedsReset compressor)
    (h : deflateStream requestEncoding compressor data outcome = some stream) : stream = {} := by
  rw [deflateStream] at h
  split at h
  · obtain ⟨helper, hhelper, hprepare⟩ := Option.bind_eq_some_iff.mp h
    rw [GrpcCompressionHelper.prepare] at hprepare
    cases compressor with
    | some used =>
      obtain rfl : used = helper := by simpa using hhelper
      rw [hcompressor used rfl, if_pos rfl] at hprepare
      split at hprepare
      · exact (Option.some.inj hprepare).symm
      · cases hprepare
    | none =>
      rw [Option.none_or, GrpcCompressionHelper.create] at hhelper
      split at hhelper
      · cases hhelper
        exact (Option.some.inj hprepare).symm
      · cases hhelper
  · cases h

/-- The buffer has the size that is asked for. -/
theorem length_uninitialized (outcome : WriteOutcome) (size : Nat) :
    (outcome.uninitialized size).length = size := by
  rw [WriteOutcome.uninitialized, List.length_map, List.length_range]

/-- An array with a prefix and a payload becomes a frame by writing the prefix. -/
theorem overwrite_eq_frameMessage {msg payload : Bytes} (flag : UInt8)
    (hlength : GrpcMessageSizeHeaderSize ≤ msg.length)
    (hpayload : msg.drop GrpcMessageSizeHeaderSize = payload) :
    overwrite (msg.set 0 flag) 1 (toBigEndian 4 payload.length) = frameMessage flag payload := by
  rw [GrpcMessageSizeHeaderSize] at hlength hpayload
  cases msg with
  | nil => simp at hlength
  | cons b rest =>
    rw [overwrite, length_toBigEndian, List.set_cons_zero, frameMessage, ← hpayload]
    rfl

/-- An attempt that does not succeed sends the message as it is. -/
theorem frame_uncompressed (data : Bytes) (outcome : WriteOutcome) (msg : Bytes)
    (compressor : Option GrpcCompressionHelper) :
    Attempt.frame ⟨0, msg, data.length, compressor⟩ data outcome = frameMessage 0 data := by
  have hlength := length_uninitialized outcome (GrpcMessageSizeHeaderSize + data.length)
  rw [Attempt.frame]
  simp only [if_true]
  apply overwrite_eq_frameMessage
  · rw [overwrite, List.length_append, List.length_append, List.length_take, hlength]
    omega
  · rw [overwrite, List.append_assoc, List.drop_append_of_le_length (by
      rw [List.length_take, hlength]
      omega), List.drop_eq_nil_of_le (List.length_take_le _ _), List.nil_append,
      List.drop_eq_nil_of_le (by omega), List.append_nil]

/-- An attempt that succeeds sends what was written into the buffer. -/
theorem frame_compressed {data payload header : Bytes} (outcome : WriteOutcome)
    (hheader : header.length = GrpcMessageSizeHeaderSize)
    (compressor : Option GrpcCompressionHelper) :
    Attempt.frame ⟨GrpcCompressedFlag, header ++ payload, payload.length, compressor⟩ data outcome =
      frameMessage GrpcCompressedFlag payload := by
  have hflag : GrpcCompressedFlag ≠ 0 := by decide
  rw [Attempt.frame]
  simp only [hflag, if_false]
  apply overwrite_eq_frameMessage
  · rw [List.length_append, hheader]
    omega
  · rw [← hheader, List.drop_left]

/-- A resize to less cuts the bytes off. -/
theorem resize_of_le {bytes : Bytes} {size : Nat} (h : size ≤ bytes.length) :
    resize bytes size = bytes.take size := by
  rw [resize, Nat.sub_eq_zero_of_le h, List.replicate_zero, List.append_nil]

/-- The buffer is cut to the prefix and the compressed message. -/
theorem resize_buffer (header : Bytes) {space : Bytes} {written : Nat} (h : written ≤ space.length) :
    resize (header ++ space) (header.length + written) = header ++ space.take written := by
  rw [resize_of_le (by rw [List.length_append]; omega), List.take_append,
    List.take_of_length_le (by omega), Nat.add_sub_cancel_left]

/-- Compression succeeds with the bytes that were written, or leaves a helper that is reset before it
is used again, or one that is not used again. -/
theorem tryCompressMessage_spec {IsEncoding : Bytes → Bytes → Prop} {helper : GrpcCompressionHelper}
    {data : Bytes} (out : Bytes) {outcome : WriteOutcome}
    (hprepare : ∀ stream, helper.prepare outcome = some stream →
      stream = {} ∧ outcome.call.Valid IsEncoding stream data data.length) :
    (∃ used : GrpcCompressionHelper, used.needsReset = true ∧
      ((helper.prepare outcome).isSome ∧ outcome.call.result = .streamEnd) ∧
      helper.tryCompressMessage data out outcome =
        (.ok (outcome.call.space.take outcome.call.written).length,
          outcome.uninitialized GrpcMessageSizeHeaderSize ++
            outcome.call.space.take outcome.call.written, used)) ∨
    ¬ ((helper.prepare outcome).isSome ∧ outcome.call.result = .streamEnd) ∧
      ((∃ (msg : Bytes) (used : GrpcCompressionHelper), used.needsReset = true ∧
        helper.tryCompressMessage data out outcome = (.error .skipped, msg, used)) ∨
      ∃ (msg : Bytes) (used : GrpcCompressionHelper),
        helper.tryCompressMessage data out outcome = (.error .broken, msg, used)) := by
  rw [GrpcCompressionHelper.tryCompressMessage.eq_def]
  cases hstream : helper.prepare outcome with
  | none => exact .inr ⟨by simp, .inr ⟨_, _, rfl⟩⟩
  | some stream =>
    obtain ⟨rfl, hvalid⟩ := hprepare stream hstream
    let used : GrpcCompressionHelper :=
      { stream := ({} : ZStream).deflate data outcome.call, needsReset := true }
    cases hresult : outcome.call.result with
    | ok => exact .inr ⟨by simp, .inl ⟨_, used, rfl, rfl⟩⟩
    | bufError => exact .inr ⟨by simp, .inl ⟨_, used, rfl, rfl⟩⟩
    | failed => exact .inr ⟨by simp, .inr ⟨_, _, rfl⟩⟩
    | streamEnd =>
      have hwritten : outcome.call.written ≤ outcome.call.space.length := by
        rw [hvalid.space]
        exact hvalid.written
      have hsize : (({} : ZStream).deflate data outcome.call).totalOut = outcome.call.written :=
        List.length_take_of_le hwritten
      have hbuffer := resize_buffer (outcome.uninitialized GrpcMessageSizeHeaderSize) hwritten
      rw [length_uninitialized] at hbuffer
      refine .inl ⟨used, rfl, by simp, ?_⟩
      simp only [hsize]
      rw [hbuffer, List.length_take_of_le hwritten]

/-- Whatever the library answers, the frame is that of the compressed message if the attempt
succeeds, and that of the message otherwise, and the compressor can be used again. -/
theorem attemptCompression_spec {IsEncoding : Bytes → Bytes → Prop}
    (requestEncoding : CompressionAlgorithm) {compressor : Option GrpcCompressionHelper}
    (data : Bytes) (outcome : WriteOutcome) (hcompressor : NeedsReset compressor)
    (hpromised : ∀ stream, deflateStream requestEncoding compressor data outcome = some stream →
      outcome.call.Valid IsEncoding stream data data.length) :
    (attemptCompression requestEncoding compressor data outcome).frame data outcome =
      Rpc.frameOutgoing requestEncoding data
        (compressedPayload requestEncoding compressor data outcome) ∧
    NeedsReset (attemptCompression requestEncoding compressor data outcome).compressor := by
  rw [attemptCompression, Rpc.frameOutgoing.eq_def]
  by_cases htry : requestEncoding ≠ .identity ∧ CompressionMinPayloadBytes ≤ data.length
  · rw [if_pos htry, if_pos htry]
    cases hhelper : compressor.or (GrpcCompressionHelper.create outcome) with
    | none =>
      have hpayload : compressedPayload requestEncoding compressor data outcome = none := by
        simp [compressedPayload, deflateStream, hhelper]
      rw [hpayload]
      exact ⟨frame_uncompressed data outcome [] none, by simp [NeedsReset]⟩
    | some helper =>
      have hstream : deflateStream requestEncoding compressor data outcome =
          helper.prepare outcome := by
        rw [deflateStream, if_pos htry, hhelper, Option.bind_some]
      have hprepare : ∀ stream, helper.prepare outcome = some stream →
          stream = {} ∧ outcome.call.Valid IsEncoding stream data data.length := by
        intro stream hprepared
        rw [← hstream] at hprepared
        exact ⟨deflateStream_eq hcompressor hprepared, hpromised stream hprepared⟩
      rw [compressedPayload, hstream]
      simp only
      rcases tryCompressMessage_spec [] hprepare with ⟨used, hused, hsuccess, heq⟩ | ⟨hno, hfailed⟩
      · rw [heq, if_pos hsuccess]
        exact ⟨frame_compressed outcome (length_uninitialized _ _) _, by simpa [NeedsReset]⟩
      · rw [if_neg hno]
        rcases hfailed with ⟨msg, used, hused, heq⟩ | ⟨msg, used, heq⟩
        · rw [heq]
          exact ⟨frame_uncompressed data outcome _ _, by simpa [NeedsReset]⟩
        · rw [heq]
          exact ⟨frame_uncompressed data outcome _ none, by simp [NeedsReset]⟩
  · rw [if_neg htry, if_neg htry]
    exact ⟨frame_uncompressed data outcome [] compressor, hcompressor⟩

/-! ## Frames -/

/-- The payload stands behind the header. -/
theorem drop_frameMessage (flag : UInt8) (payload : Bytes) :
    (frameMessage flag payload).drop GrpcMessageSizeHeaderSize = payload := by
  rw [frameMessage, GrpcMessageSizeHeaderSize, List.cons_append, List.drop_succ_cons]
  exact List.drop_left' (length_toBigEndian 4 payload.length)

/-- The length field of a frame is that of its payload. -/
theorem lengthField_frameMessage (flag : UInt8) {payload : Bytes} (h : payload.length < 2 ^ 32) :
    ofBigEndian (((frameMessage flag payload).drop 1).take 4) = payload.length := by
  have htake : ((frameMessage flag payload).drop 1).take 4 = toBigEndian 4 payload.length := by
    rw [frameMessage, List.cons_append, List.drop_succ_cons, List.drop_zero]
    exact List.take_left' (length_toBigEndian 4 payload.length)
  rw [htake, ofBigEndian_toBigEndian]
  exact Nat.mod_eq_of_lt h

section

variable {IsEncoding : Bytes → Bytes → Prop} {data payload : Bytes}

/-- A message that is sent as it is. -/
theorem selfConsistent_uncompressed (h : data.length < 2 ^ 32) :
    SelfConsistent IsEncoding data (frameMessage 0 data) where
  hasHeader := by
    rw [length_frameMessage]
    omega
  length_eq := by rw [lengthField_frameMessage 0 h, drop_frameMessage]
  compressed hflag := by
    have hzero : (0 : UInt8) = GrpcCompressedFlag := Option.some.inj hflag
    exact absurd hzero (by decide)
  uncompressed _ := ⟨rfl, drop_frameMessage 0 data⟩

/-- A message that is sent compressed. -/
theorem selfConsistent_compressed (h : payload.length < 2 ^ 32) :
    SelfConsistent IsEncoding data (frameMessage GrpcCompressedFlag payload) ↔
      IsEncoding data payload ∧ payload.length < data.length := by
  constructor
  · intro hframe
    have hcompressed := hframe.compressed rfl
    rwa [drop_frameMessage] at hcompressed
  · intro hpayload
    refine ⟨?_, ?_, fun _ => ?_, fun hflag => absurd rfl hflag⟩
    · rw [length_frameMessage]
      omega
    · rw [lengthField_frameMessage _ h, drop_frameMessage]
    · rwa [drop_frameMessage]

end

/-! ## Runs -/

namespace Writer

variable {IsEncoding : Bytes → Bytes → Prop} {options : HandlerOptions}

/-- All frames are what they say. -/
def AllSelfConsistent (IsEncoding : Bytes → Bytes → Prop) (writer : Writer) : Prop :=
  ∀ entry ∈ writer.enqueued, SelfConsistent IsEncoding entry.1 entry.2

/-- The frame of a message that is accepted is consistent exactly if its compression gains. -/
theorem frame_selfConsistent_iff {writer : Writer} {data : Bytes} {outcome : WriteOutcome}
    (hcompressor : NeedsReset writer.compressor) (haccepts : writer.accepts data)
    (hpromised : writer.Promised IsEncoding options data outcome) :
    SelfConsistent IsEncoding data (Rpc.frameOutgoing options.requestEncoding data
      (compressedPayload options.requestEncoding writer.compressor data outcome)) ↔
    ¬ writer.GainsNothing options data outcome := by
  have hmax : data.length < 2 ^ 32 := by
    have hle := haccepts.2
    rw [GrpcMaxPayloadSize] at hle
    omega
  have hdeflates : writer.deflates options data outcome =
      deflateStream options.requestEncoding writer.compressor data outcome := rfl
  rw [Rpc.frameOutgoing.eq_def, compressedPayload, GainsNothing, hdeflates]
  by_cases hsuccess : (deflateStream options.requestEncoding writer.compressor data outcome).isSome ∧
      outcome.call.result = .streamEnd
  · obtain ⟨stream, hstream⟩ := Option.isSome_iff_exists.mp hsuccess.1
    have hvalid := hpromised haccepts stream hstream
    have htry : options.requestEncoding ≠ .identity ∧ CompressionMinPayloadBytes ≤ data.length := by
      by_contra hno
      rw [deflateStream, if_neg hno] at hstream
      cases hstream
    obtain rfl := deflateStream_eq hcompressor hstream
    have hcomplete : IsEncoding data (outcome.call.space.take outcome.call.written) :=
      hvalid.complete hsuccess.2
    have hlength : (outcome.call.space.take outcome.call.written).length = outcome.call.written := by
      apply List.length_take_of_le
      rw [hvalid.space]
      exact hvalid.written
    have hwritten := hvalid.written
    rw [if_pos htry, if_pos hsuccess]
    simp only
    rw [selfConsistent_compressed (by omega), hlength]
    constructor
    · rintro ⟨-, hlt⟩ ⟨-, -, -, heq⟩
      omega
    · intro hno
      refine ⟨hcomplete, Nat.lt_of_le_of_ne hwritten fun heq => ?_⟩
      exact hno ⟨haccepts, hsuccess.1, hsuccess.2, heq⟩
  · have hframe : (if options.requestEncoding ≠ .identity ∧
        CompressionMinPayloadBytes ≤ data.length then frameMessage 0 data
        else frameMessage 0 data) = frameMessage 0 data := ite_self _
    rw [if_neg hsuccess]
    simp only [hframe]
    refine iff_of_true (selfConsistent_uncompressed hmax) fun hno => ?_
    exact hsuccess ⟨hno.2.1, hno.2.2.1⟩

/-- What one write does: nothing is enqueued, or the message with its frame. -/
theorem writeMessage_cases (options : HandlerOptions) (writer : Writer) (data : Bytes)
    (outcome : WriteOutcome) :
    (¬ writer.accepts data ∧
      (writer.writeMessage options data outcome).compressor = writer.compressor ∧
      (writer.writeMessage options data outcome).enqueued = writer.enqueued) ∨
    writer.accepts data ∧
      (writer.writeMessage options data outcome).compressor =
        (attemptCompression options.requestEncoding writer.compressor data outcome).compressor ∧
      (writer.writeMessage options data outcome).enqueued = writer.enqueued ++
        [(data, (attemptCompression options.requestEncoding writer.compressor data outcome).frame
          data outcome)] := by
  rw [writeMessage, accepts]
  by_cases hrefused : writer.rpc.writesDoneSent ∨ writer.rpc.state.ended ∨
      writer.rpc.isStreamClosedForSending
  · rw [if_pos hrefused]
    exact .inl ⟨fun h => h.1 hrefused, rfl, rfl⟩
  · rw [if_neg hrefused]
    by_cases hlarge : GrpcMaxPayloadSize < data.length
    · rw [if_pos hlarge]
      exact .inl ⟨fun h => absurd h.2 (by omega), rfl, rfl⟩
    · rw [if_neg hlarge]
      exact .inr ⟨⟨hrefused, by omega⟩, rfl, rfl⟩

/-- A write keeps the frames consistent exactly if compression gains. -/
theorem writeMessage_spec {writer : Writer} {data : Bytes} {outcome : WriteOutcome}
    (hcompressor : NeedsReset writer.compressor)
    (hpromised : writer.Promised IsEncoding options data outcome) :
    NeedsReset (writer.writeMessage options data outcome).compressor ∧
    ((writer.writeMessage options data outcome).AllSelfConsistent IsEncoding ↔
      writer.AllSelfConsistent IsEncoding ∧ ¬ writer.GainsNothing options data outcome) := by
  rcases writer.writeMessage_cases options data outcome with
    ⟨hrefused, hsame, henqueued⟩ | ⟨haccepts, hnext, henqueued⟩
  · rw [hsame, AllSelfConsistent, henqueued]
    exact ⟨hcompressor, fun h => ⟨h, fun hno => hrefused hno.1⟩, fun h => h.1⟩
  · obtain ⟨hframe, hready⟩ := attemptCompression_spec options.requestEncoding data outcome
      hcompressor (hpromised haccepts)
    rw [hnext, AllSelfConsistent, henqueued, hframe,
      ← frame_selfConsistent_iff hcompressor haccepts hpromised]
    refine ⟨hready, ?_⟩
    simp only [List.forall_mem_append, List.forall_mem_singleton]
    rfl

/-- With the compressed payload as its input, the write is that of the RPC. -/
theorem writeMessage_rpc {writer : Writer} {data : Bytes} {outcome : WriteOutcome}
    (hcompressor : NeedsReset writer.compressor)
    (hpromised : writer.Promised IsEncoding options data outcome) :
    (writer.writeMessage options data outcome).rpc = writer.rpc.writeMessage options data
      (compressedPayload options.requestEncoding writer.compressor data outcome) := by
  rw [writeMessage, Rpc.writeMessage.eq_def]
  by_cases hrefused : writer.rpc.writesDoneSent ∨ writer.rpc.state.ended ∨
      writer.rpc.isStreamClosedForSending
  · simp only [if_pos hrefused]
  · simp only [if_neg hrefused]
    by_cases hlarge : GrpcMaxPayloadSize < data.length
    · simp only [if_pos hlarge]
    · have haccepts : writer.accepts data := ⟨hrefused, by omega⟩
      have hframe := (attemptCompression_spec options.requestEncoding data outcome hcompressor
        (hpromised haccepts)).1
      simp only [if_neg hlarge, hframe]

variable {env : Environment}

/-- Each step keeps the frames consistent exactly if it gains. -/
theorem step_spec {writer next : Writer} {input : Input}
    (hcompressor : NeedsReset writer.compressor)
    (hpromised : writer.InputPromised IsEncoding options input)
    (h : writer.step env options input = some next) :
    NeedsReset next.compressor ∧ (next.AllSelfConsistent IsEncoding ↔
      writer.AllSelfConsistent IsEncoding ∧ writer.InputGains options input) := by
  cases input with
  | write data outcome =>
    rw [step] at h
    split at h
    · cases h
      by_cases halive : writer.rpc.channelAlive ∧ writer.rpc.alive
      · rw [if_pos halive, InputGains]
        simp only [halive, and_self, forall_const]
        exact writeMessage_spec hcompressor (hpromised halive)
      · rw [if_neg halive, InputGains]
        simp only [halive, false_implies, and_true]
        exact hcompressor
    · cases h
  | other input =>
    rw [step] at h
    split at h
    · cases h
    · obtain ⟨rpc, -, rfl⟩ := Option.map_eq_some_iff.mp h
      exact ⟨hcompressor, fun h => ⟨h, trivial⟩, fun h => h.1⟩

/-- A step is one of the RPC. -/
theorem step_rpc {writer next : Writer} {input : Input} (hcompressor : NeedsReset writer.compressor)
    (hpromised : writer.InputPromised IsEncoding options input)
    (h : writer.step env options input = some next) :
    ∃ rpcInput, writer.rpc.step env options rpcInput = some next.rpc := by
  cases input with
  | write data outcome =>
    rw [step] at h
    split at h
    · rename_i hready
      cases h
      refine ⟨.writeMessage data
        (compressedPayload options.requestEncoding writer.compressor data outcome), ?_⟩
      rw [Rpc.step]
      rw [if_pos hready]
      by_cases halive : writer.rpc.channelAlive ∧ writer.rpc.alive
      · rw [if_pos halive, if_pos halive, writeMessage_rpc hcompressor (hpromised halive)]
      · rw [if_neg halive, if_neg halive]
    · cases h
  | other input =>
    rw [step] at h
    split at h
    · cases h
    · obtain ⟨rpc, hrpc, rfl⟩ := Option.map_eq_some_iff.mp h
      exact ⟨input, hrpc⟩

open Transition in
/-- Along a run the frames stay consistent exactly if every step gains. -/
theorem run_spec {writer final : Writer} {inputs : List Input}
    (hcompressor : NeedsReset writer.compressor)
    (hpromised : Along (step env options) (InputPromised IsEncoding options) writer inputs)
    (h : run (step env options) writer inputs = some final) :
    final.AllSelfConsistent IsEncoding ↔ writer.AllSelfConsistent IsEncoding ∧
      Along (step env options) (InputGains options) writer inputs := by
  induction inputs generalizing writer with
  | nil =>
    cases h
    exact ⟨fun h => ⟨h, trivial⟩, fun h => h.1⟩
  | cons input inputs ih =>
    rw [run_cons, Option.bind_eq_some_iff] at h
    obtain ⟨next, hnext, hrest⟩ := h
    obtain ⟨hready, hstep⟩ := step_spec hcompressor hpromised.1 hnext
    rw [ih hready (hpromised.2 next hnext) hrest, hstep, and_assoc, Along]
    refine and_congr_right fun _ => and_congr_right fun _ => ?_
    exact ⟨fun halong other hother => (Option.some.inj (hnext.symm.trans hother)) ▸ halong,
      fun halong => halong next hnext⟩

open Transition in
/-- In a run of a handler in which the library keeps its promises, every frame that is enqueued
tells its length and is either a shorter compressed message or the message itself, exactly if no
message is compressed to its own length. -/
theorem frames_selfConsistent_iff (IsEncoding : CompressionAlgorithm → Bytes → Bytes → Prop)
    (env : Environment) (options : HandlerOptions) (data : Bytes) (outcome : WriteOutcome)
    (inputs : List Input) (final : Writer)
    (hfirst : Promised (IsEncoding options.requestEncoding) options { rpc := Rpc.fresh options }
      data outcome)
    (hpromised : Along (step env options)
      (InputPromised (IsEncoding options.requestEncoding) options)
      (constructed options data outcome) inputs)
    (hrun : run (step env options) (constructed options data outcome) inputs = some final) :
    (∀ entry ∈ final.enqueued,
      SelfConsistent (IsEncoding options.requestEncoding) entry.1 entry.2) ↔
    ¬ GainsNothing options { rpc := Rpc.fresh options } data outcome ∧
      Along (step env options) (InputGains options) (constructed options data outcome) inputs := by
  have hfresh : NeedsReset ({ rpc := Rpc.fresh options } : Writer).compressor := by
    simp [NeedsReset]
  obtain ⟨hready, hwrite⟩ := writeMessage_spec hfresh hfirst
  have hempty : AllSelfConsistent (IsEncoding options.requestEncoding)
      ({ rpc := Rpc.fresh options } : Writer) := by
    simp [AllSelfConsistent]
  have hspec := run_spec hready hpromised hrun
  rw [hwrite] at hspec
  refine hspec.trans ?_
  simp only [hempty, true_and]
  rfl

/-! ## An example -/

/-- A serialized message of one string, and the 13 bytes zlib encodes it with. -/
def sampleMessage : Bytes := 10 :: 38 :: List.replicate 38 97

def sampleEncoded : Bytes := [120, 1, 227, 82, 75, 36, 10, 0, 0, 32, 86, 14, 151]

/-- A serialized message of one string that zlib encodes with as many bytes. -/
def denseMessage : Bytes :=
  [10, 28, 65, 66, 67, 68, 69, 70, 71, 72, 73, 74, 75, 76, 77, 78, 79, 80, 81, 82, 97, 97, 97, 97,
    97, 97, 97, 97, 97, 97]

def denseEncoded : Bytes :=
  [120, 1, 227, 146, 113, 116, 114, 118, 113, 117, 115, 247, 240, 244, 242, 246, 241, 245, 243, 15,
    8, 12, 74, 132, 3, 0, 124, 47, 9, 28]

/-- The encodings of these messages. -/
def IsSampleEncoding (algorithm : CompressionAlgorithm) (input output : Bytes) : Prop :=
  algorithm = .deflate ∧
    (input = sampleMessage ∧ output = sampleEncoded ∨ input = denseMessage ∧ output = denseEncoded)

/-- A bidirectional stream whose requests are compressed. -/
def deflateOptions : HandlerOptions := { bidiOptions with requestEncoding := .deflate }

/-- The encoding does not fill the space it was offered. -/
def shorterOutcome : WriteOutcome where
  create := true
  reset := true
  call := {
    result := .streamEnd, space := sampleEncoded ++ List.replicate 27 0xaa, written := 13 }
  memory _ := 0xaa

/-- The library stops as the space is used up. -/
def skippedOutcome : WriteOutcome where
  create := true
  reset := true
  call := { result := .bufError, space := List.replicate 30 0xaa, written := 30 }
  memory _ := 0xaa

/-- The encoding fills the space it was offered. -/
def fillingOutcome : WriteOutcome where
  create := true
  reset := true
  call := { result := .streamEnd, space := denseEncoded, written := 30 }
  memory _ := 0xaa

/-- An output that is shorter keeps the promise. -/
theorem shorterOutcome_promised : Promised (IsSampleEncoding deflateOptions.requestEncoding)
    deflateOptions { rpc := Rpc.fresh deflateOptions } sampleMessage shorterOutcome := by
  intro _ stream hstream
  obtain rfl := deflateStream_eq (by simp [NeedsReset]) hstream
  exact ⟨by decide, by decide, fun _ => ⟨rfl, .inl ⟨by decide, by decide⟩⟩⟩

/-- An output that fills its buffer keeps the promise. -/
theorem fillingOutcome_promised : Promised (IsSampleEncoding deflateOptions.requestEncoding)
    deflateOptions { rpc := Rpc.fresh deflateOptions } denseMessage fillingOutcome := by
  intro _ stream hstream
  obtain rfl := deflateStream_eq (by simp [NeedsReset]) hstream
  exact ⟨by decide, by decide, fun _ => ⟨rfl, .inr ⟨by decide, by decide⟩⟩⟩

open Transition in
/-- A short output is sent with the flag set, and a message without one as it is. -/
theorem frames_selfConsistent_iff_sample :
    ∃ final, run (step plainEnvironment deflateOptions)
        (constructed deflateOptions sampleMessage shorterOutcome)
        [.write denseMessage skippedOutcome] = some final ∧
      final.enqueued.map (·.2) =
        [frameMessage GrpcCompressedFlag sampleEncoded, frameMessage 0 denseMessage] ∧
      ∀ entry ∈ final.enqueued,
        SelfConsistent (IsSampleEncoding deflateOptions.requestEncoding) entry.1 entry.2 := by
  refine ⟨_, rfl, by decide, ?_⟩
  refine (frames_selfConsistent_iff IsSampleEncoding plainEnvironment deflateOptions sampleMessage
    shorterOutcome [.write denseMessage skippedOutcome] _ shorterOutcome_promised ⟨?_, ?_⟩ rfl).mpr
    ⟨by decide, ⟨fun _ => by decide, fun _ _ => trivial⟩⟩
  · intro _ _ stream _
    exact ⟨by decide, by decide, fun hend => by cases hend⟩
  · exact fun _ _ => trivial

open Transition in
/-- A message that zlib encodes with as many bytes is sent compressed. -/
theorem denseMessage_compressed :
    Promised (IsSampleEncoding deflateOptions.requestEncoding) deflateOptions
      { rpc := Rpc.fresh deflateOptions } denseMessage fillingOutcome ∧
    ∃ final, run (step plainEnvironment deflateOptions)
        (constructed deflateOptions denseMessage fillingOutcome) [] = some final ∧
      (denseMessage, frameMessage GrpcCompressedFlag denseEncoded) ∈ final.enqueued ∧
      ¬ SelfConsistent (IsSampleEncoding deflateOptions.requestEncoding) denseMessage
        (frameMessage GrpcCompressedFlag denseEncoded) := by
  refine ⟨fillingOutcome_promised, _, rfl, by decide, ?_⟩
  rw [selfConsistent_compressed (by decide)]
  exact fun h => absurd h.2 (by decide)

end Writer

end QtGrpc.Http2
