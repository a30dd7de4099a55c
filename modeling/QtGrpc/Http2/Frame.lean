import Mathlib.Data.List.TakeDrop
import QtGrpc.Bytes
import QtGrpc.Library.ByteOrder

/-!
# Length-prefixed gRPC frames

A message travels as a compression flag, its length in four big-endian bytes and the
payload. `GrpcDataParser` collects received chunks in one buffer and cuts complete frames
from its front; a declared length above the receive limit discards the buffer and stops.
The frames it delivers do not depend on how the stream was cut into chunks.
-/

namespace QtGrpc.Http2

open ByteOrder

/-- One flag byte and a four-byte length precede every payload. -/
def GrpcMessageSizeHeaderSize : Nat := 5

/-- The flag byte of a compressed message. -/
def GrpcCompressedFlag : UInt8 := 0x01

/-- A received message before decompression. -/
structure Frame where
  payload : Bytes
  isCompressed : Bool
deriving DecidableEq, Repr

/-- Why no frame was returned; an oversize frame reports the length it declares. -/
inductive ParseError where
  | needMoreData
  | oversize (declaredSize : Nat)
deriving DecidableEq, Repr

/-- The receive buffer of one stream together with its fixed limit. -/
structure GrpcDataParser where
  maxReceiveSize : UInt32
  container : Bytes
deriving DecidableEq, Repr

namespace GrpcDataParser

/-- Append one received chunk. -/
def feed (parser : GrpcDataParser) (data : Bytes) : GrpcDataParser :=
  { parser with container := parser.container ++ data }

/-- The number of buffered bytes that belong to no delivered frame. -/
def bytesAvailable (parser : GrpcDataParser) : Nat := parser.container.length

/-- Cut the next complete frame from the front of the buffer. -/
def parseNextFrame (parser : GrpcDataParser) : Except ParseError Frame × GrpcDataParser :=
  if parser.container.length < GrpcMessageSizeHeaderSize then
    (.error .needMoreData, parser)
  else
    let messageLength := ofBigEndian ((parser.container.drop 1).take 4)
    if parser.maxReceiveSize.toNat < messageLength then
      (.error (.oversize messageLength), { parser with container := [] })
    else
      let frameSize := GrpcMessageSizeHeaderSize + messageLength
      if parser.container.length < frameSize then
        (.error .needMoreData, parser)
      else
        (.ok { payload := (parser.container.drop GrpcMessageSizeHeaderSize).take messageLength
               isCompressed := parser.container.headD 0 != 0 },
          { parser with container := parser.container.drop frameSize })

/-- A delivered frame shortens the buffer by its header and payload. -/
theorem parseNextFrame_ok (parser next : GrpcDataParser) (frame : Frame)
    (h : parser.parseNextFrame = (.ok frame, next)) :
    next.maxReceiveSize = parser.maxReceiveSize ∧
      frame.payload.length ≤ parser.maxReceiveSize.toNat ∧
      parser.bytesAvailable =
        GrpcMessageSizeHeaderSize + frame.payload.length + next.bytesAvailable := by
  simp only [parseNextFrame] at h
  split at h
  · cases h
  · split at h
    · cases h
    · split at h
      · cases h
      · rename_i hlimit hsize
        simp only [Prod.mk.injEq, Except.ok.injEq] at h
        obtain ⟨rfl, rfl⟩ := h
        simp only [GrpcMessageSizeHeaderSize, bytesAvailable, List.length_take,
          List.length_drop, true_and] at hsize ⊢
        omega

/-- Without a frame the buffer is untouched, unless the declared length discards it. -/
theorem parseNextFrame_error (parser next : GrpcDataParser) (reason : ParseError)
    (h : parser.parseNextFrame = (.error reason, next)) :
    next.maxReceiveSize = parser.maxReceiveSize ∧
      (reason = .needMoreData ∧ next = parser ∨
        (∃ size, reason = .oversize size ∧ parser.maxReceiveSize.toNat < size) ∧
          next.container = []) := by
  simp only [parseNextFrame] at h
  split at h
  · simp_all
  · split at h
    · rename_i hlimit
      simp only [Prod.mk.injEq, Except.error.injEq] at h
      obtain ⟨rfl, rfl⟩ := h
      exact ⟨rfl, .inr ⟨⟨_, rfl, hlimit⟩, rfl⟩⟩
    · split at h
      · simp_all
      · cases h

/-- Parse until no complete frame is left: the frames delivered, the status that ended the
loop, and the parser afterwards. -/
def drain (parser : GrpcDataParser) : List Frame × ParseError × GrpcDataParser :=
  match _h : parser.parseNextFrame with
  | (.ok frame, next) => (frame :: next.drain.1, next.drain.2)
  | (.error reason, next) => ([], reason, next)
termination_by parser.bytesAvailable
decreasing_by
  all_goals
    have hstep := parseNextFrame_ok parser next frame _h
    simp only [GrpcMessageSizeHeaderSize] at hstep
    omega

/-- A frame that is read is followed by the rest. -/
theorem drain_of_ok (parser next : GrpcDataParser) (frame : Frame)
    (h : parser.parseNextFrame = (.ok frame, next)) :
    parser.drain = (frame :: next.drain.1, next.drain.2) := by
  rw [drain]
  split
  · rename_i frame' next' h'
    rw [h] at h'
    cases h'
    rfl
  · rename_i h'
    rw [h] at h'
    cases h'

/-- The loop ends with the reason why no frame is read. -/
theorem drain_of_error (parser next : GrpcDataParser) (reason : ParseError)
    (h : parser.parseNextFrame = (.error reason, next)) :
    parser.drain = ([], reason, next) := by
  rw [drain]
  split
  · rename_i h'
    rw [h] at h'
    cases h'
  · rename_i reason' next' h'
    rw [h] at h'
    cases h'
    rfl

/-- What a drain reports to its caller; running out of data is not an event. -/
def reports (frames : List Frame) : ParseError → List (Except ParseError Frame)
  | .needMoreData => frames.map .ok
  | .oversize size => frames.map .ok ++ [.error (.oversize size)]

/-- Feed every chunk in turn and drain after each, collecting what is reported. -/
def receiveAll (parser : GrpcDataParser) :
    List Bytes → List (Except ParseError Frame) × GrpcDataParser
  | [] => ([], parser)
  | chunk :: chunks =>
    let drained := (parser.feed chunk).drain
    let later := drained.2.2.receiveAll chunks
    (reports drained.1 drained.2.1 ++ later.1, later.2)

/-- One call on the parser. -/
inductive Call where
  | feed (data : Bytes)
  | parseNextFrame

/-- The results of the parsing calls of a history, and the parser after it. -/
def performAll (parser : GrpcDataParser) :
    List Call → List (Except ParseError Frame) × GrpcDataParser
  | [] => ([], parser)
  | .feed data :: calls => (parser.feed data).performAll calls
  | .parseNextFrame :: calls =>
    let later := parser.parseNextFrame.2.performAll calls
    (parser.parseNextFrame.1 :: later.1, later.2)

end GrpcDataParser

/-- The prefix and payload that `writeMessage` enqueues. -/
def frameMessage (compressedFlag : UInt8) (payload : Bytes) : Bytes :=
  compressedFlag :: toBigEndian 4 payload.length ++ payload

/-- The frame of a message with the flag its compression state calls for. -/
def Frame.encode (frame : Frame) : Bytes :=
  frameMessage (if frame.isCompressed then GrpcCompressedFlag else 0) frame.payload

end QtGrpc.Http2
