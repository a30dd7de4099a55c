import Mathlib.Data.List.Basic
import QtGrpc.Http2.Frame

/-!
# Frames recovered from a chunked stream

The buffer of the parser always holds the part of the stream received so far that lies
behind the delivered frames. An incomplete buffer therefore determines the first frame
that is still missing, and feeding one more chunk moves that border by whole frames.
-/

namespace QtGrpc.Http2

open ByteOrder GrpcDataParser

/-- The bytes of consecutive frames on the wire. -/
def encodeAll (frames : List Frame) : Bytes := (frames.map Frame.encode).flatten

/-- A framed message is its payload and the five bytes of the header. -/
@[simp] theorem length_frameMessage (flag : UInt8) (payload : Bytes) :
    (frameMessage flag payload).length = GrpcMessageSizeHeaderSize + payload.length := by
  simp [frameMessage, GrpcMessageSizeHeaderSize]
  omega

/-- A frame is its payload and the five bytes of the header. -/
@[simp] theorem Frame.length_encode (frame : Frame) :
    frame.encode.length = GrpcMessageSizeHeaderSize + frame.payload.length := by
  simp [Frame.encode]

/-- Once the five header bytes are buffered, the declared length alone decides. -/
theorem parseNextFrame_header (limit : UInt32) (flag : UInt8) (lengthBytes rest : Bytes)
    (h : lengthBytes.length = 4) :
    parseNextFrame ⟨limit, flag :: (lengthBytes ++ rest)⟩ =
      if limit.toNat < ofBigEndian lengthBytes then
        (.error (.oversize (ofBigEndian lengthBytes)), ⟨limit, []⟩)
      else if rest.length < ofBigEndian lengthBytes then
        (.error .needMoreData, ⟨limit, flag :: (lengthBytes ++ rest)⟩)
      else
        (.ok ⟨rest.take (ofBigEndian lengthBytes), flag != 0⟩,
          ⟨limit, rest.drop (ofBigEndian lengthBytes)⟩) := by
  have htake : (lengthBytes ++ rest).take 4 = lengthBytes := List.take_left' h
  have hdrop : (lengthBytes ++ rest).drop 4 = rest := List.drop_left' h
  have hsize (n : Nat) : 5 + n = n + 4 + 1 := by omega
  have hskip (n : Nat) : (lengthBytes ++ rest).drop (n + 4) = rest.drop n := by
    rw [Nat.add_comm, ← List.drop_drop, hdrop]
  have hshort : ¬ (flag :: (lengthBytes ++ rest)).length < 5 := by
    simp only [List.length_cons, List.length_append]
    omega
  have hlength (n : Nat) : (flag :: (lengthBytes ++ rest)).length < 5 + n ↔ rest.length < n := by
    simp only [List.length_cons, List.length_append]
    omega
  simp only [parseNextFrame, GrpcMessageSizeHeaderSize, hshort, if_false, List.drop_one,
    List.tail_cons, htake, hlength]
  simp [hsize, hskip]

/-- The header of a frame within the limit makes the parser cut exactly that frame. -/
theorem parseNextFrame_encode (limit : UInt32) (frame : Frame) (rest : Bytes)
    (h : frame.payload.length ≤ limit.toNat) :
    parseNextFrame ⟨limit, frame.encode ++ rest⟩ = (.ok frame, ⟨limit, rest⟩) := by
  obtain ⟨payload, isCompressed⟩ := frame
  have hlimit := limit.toNat_lt
  have hlength : ofBigEndian (toBigEndian 4 payload.length) = payload.length := by
    rw [ofBigEndian_toBigEndian]
    exact Nat.mod_eq_of_lt (by simp only at h; omega)
  have hflag : ((if isCompressed then GrpcCompressedFlag else (0 : UInt8)) != 0) =
      isCompressed := by
    cases isCompressed <;> decide
  simp only [Frame.encode, frameMessage, List.cons_append, List.append_assoc]
  rw [parseNextFrame_header _ _ _ _ (by simp), hlength, if_neg (Nat.not_lt.mpr h), if_neg (by simp),
    hflag]
  simp

/-- Less than a header waits for more. -/
theorem parseNextFrame_short (parser : GrpcDataParser)
    (h : parser.container.length < GrpcMessageSizeHeaderSize) :
    parser.parseNextFrame = (.error .needMoreData, parser) := by
  simp [parseNextFrame, h]

/-- A proper prefix of a frame within the limit is kept until more data arrives. -/
theorem parseNextFrame_incomplete (limit : UInt32) (frame : Frame) (buffered later rest : Bytes)
    (hlimit : frame.payload.length ≤ limit.toNat)
    (hstream : buffered ++ later = frame.encode ++ rest)
    (hshort : buffered.length < frame.encode.length) :
    parseNextFrame ⟨limit, buffered⟩ = (.error .needMoreData, ⟨limit, buffered⟩) := by
  by_cases hheader : buffered.length < GrpcMessageSizeHeaderSize
  · exact parseNextFrame_short _ hheader
  have htoNat := limit.toNat_lt
  have hlength : ofBigEndian (toBigEndian 4 frame.payload.length) = frame.payload.length := by
    rw [ofBigEndian_toBigEndian]
    exact Nat.mod_eq_of_lt (by omega)
  set flag := if frame.isCompressed then GrpcCompressedFlag else 0
  obtain ⟨n, hn⟩ : ∃ n, buffered.length = n + 5 := ⟨buffered.length - 5, by
    simp only [GrpcMessageSizeHeaderSize] at hheader
    omega⟩
  have hfront : buffered =
      flag :: (toBigEndian 4 frame.payload.length ++ frame.payload.take n) := by
    have h := congrArg (List.take buffered.length) hstream
    rw [List.take_left, List.take_append_of_le_length hshort.le] at h
    rw [h, hn]
    simp [Frame.encode, frameMessage, flag, List.take_append]
  rw [hfront, parseNextFrame_header _ _ _ _ (by simp), hlength, if_neg (Nat.not_lt.mpr hlimit),
    if_pos]
  rw [Frame.length_encode, hn] at hshort
  simp only [GrpcMessageSizeHeaderSize] at hshort
  simp only [List.length_take]
  omega

/-- How a stream may go on behind its acceptable frames: not at all, or with a header that
declares more than the limit. -/
inductive Ending (limit : UInt32) : Bytes → Option Nat → Prop where
  | finished : Ending limit [] none
  | oversize (flag : UInt8) (declared : Nat) (rest : Bytes) (habove : limit.toNat < declared)
      (hwidth : declared < 2 ^ 32) :
      Ending limit (flag :: (toBigEndian 4 declared ++ rest)) (some declared)

/-- A frame above the limit is refused and what was received is dropped. -/
theorem parseNextFrame_oversize (limit : UInt32) (flag : UInt8) (declared : Nat) (rest : Bytes)
    (habove : limit.toNat < declared) (hwidth : declared < 2 ^ 32) :
    parseNextFrame ⟨limit, flag :: (toBigEndian 4 declared ++ rest)⟩ =
      (.error (.oversize declared), ⟨limit, []⟩) := by
  have hlength : ofBigEndian (toBigEndian 4 declared) = declared := by
    rw [ofBigEndian_toBigEndian]
    exact Nat.mod_eq_of_lt (by omega)
  rw [parseNextFrame_header _ _ _ _ (by simp), hlength, if_pos habove]

/-- A stream that may follow acceptable frames never completes a frame of its own. -/
theorem Ending.parseNextFrame {limit : UInt32} {tail : Bytes} {declared : Option Nat}
    (ending : Ending limit tail declared) (buffered later : Bytes)
    (hstream : buffered ++ later = tail) :
    parseNextFrame ⟨limit, buffered⟩ = (.error .needMoreData, ⟨limit, buffered⟩) ∧
        (buffered = tail → tail = [] ∧ declared = none) ∨
      ∃ size, declared = some size ∧
        parseNextFrame ⟨limit, buffered⟩ = (.error (.oversize size), ⟨limit, []⟩) := by
  by_cases hheader : buffered.length < GrpcMessageSizeHeaderSize
  · refine .inl ⟨parseNextFrame_short _ hheader, fun h => ?_⟩
    subst h
    cases ending with
    | finished => exact ⟨rfl, rfl⟩
    | oversize => simp [GrpcMessageSizeHeaderSize] at hheader; omega
  cases ending with
  | finished =>
    obtain ⟨rfl, -⟩ := List.append_eq_nil_iff.mp hstream
    simp [GrpcMessageSizeHeaderSize] at hheader
  | oversize flag size rest habove hwidth =>
    have hfront : buffered = flag :: (toBigEndian 4 size ++ rest.take (buffered.length - 5)) := by
      obtain ⟨n, hn⟩ : ∃ n, buffered.length = n + 5 := ⟨buffered.length - 5, by
        simp only [GrpcMessageSizeHeaderSize] at hheader
        omega⟩
      have h := congrArg (List.take buffered.length) hstream
      rw [List.take_left] at h
      rw [hn, Nat.add_sub_cancel, h, hn]
      simp [List.take_append]
    rw [hfront, parseNextFrame_oversize limit flag size _ habove hwidth]
    exact .inr ⟨size, rfl, rfl⟩

/-- One drain of a buffered part of the stream delivers the frames that are complete in it and
keeps the rest, or stops at the header that ends the stream. -/
theorem drain_stream (limit : UInt32) (frames : List Frame) (tail : Bytes)
    (declared : Option Nat) (ending : Ending limit tail declared)
    (hwithin : ∀ frame ∈ frames, frame.payload.length ≤ limit.toNat) (buffered later : Bytes)
    (hstream : buffered ++ later = encodeAll frames ++ tail) :
    (∃ done todo rest, frames = done ++ todo ∧
      drain ⟨limit, buffered⟩ = (done, .needMoreData, ⟨limit, rest⟩) ∧
      parseNextFrame ⟨limit, rest⟩ = (.error .needMoreData, ⟨limit, rest⟩) ∧
      rest ++ later = encodeAll todo ++ tail ∧ buffered = encodeAll done ++ rest) ∨
    ∃ size, declared = some size ∧
      drain ⟨limit, buffered⟩ = (frames, .oversize size, ⟨limit, []⟩) := by
  induction frames generalizing buffered with
  | nil =>
    rcases ending.parseNextFrame buffered later hstream with ⟨h, -⟩ | ⟨size, rfl, h⟩
    · exact .inl ⟨[], [], buffered, rfl, drain_of_error _ _ _ h, h, hstream, rfl⟩
    · exact .inr ⟨size, rfl, drain_of_error _ _ _ h⟩
  | cons frame frames ih =>
    have hframe := hwithin frame (by simp)
    have hall : encodeAll (frame :: frames) ++ tail =
        frame.encode ++ (encodeAll frames ++ tail) := by simp [encodeAll]
    rw [hall] at hstream
    by_cases hcomplete : frame.encode.length ≤ buffered.length
    · obtain ⟨rest, rfl⟩ : frame.encode <+: buffered :=
        List.prefix_of_prefix_length_le ⟨_, hstream.symm⟩ ⟨later, rfl⟩ hcomplete
      rw [List.append_assoc, List.append_cancel_left_eq] at hstream
      have hparse := parseNextFrame_encode limit frame rest hframe
      rcases ih (fun f hf => hwithin f (by simp [hf])) rest hstream with
        ⟨done, todo, kept, hsplit, hdrain, hkept, hlater, hbuffered⟩ | ⟨size, hdeclared, hdrain⟩
      · refine .inl ⟨frame :: done, todo, kept, by simp [hsplit], ?_, hkept, hlater, ?_⟩
        · rw [drain_of_ok _ _ _ hparse, hdrain]
        · simp [encodeAll, hbuffered]
      · exact .inr ⟨size, hdeclared, by rw [drain_of_ok _ _ _ hparse, hdrain]⟩
    · have hparse := parseNextFrame_incomplete limit frame buffered later _ hframe hstream
        (by omega)
      exact .inl ⟨[], frame :: frames, buffered, rfl, drain_of_error _ _ _ hparse, hparse,
        by rw [hall, hstream], rfl⟩

/-- The chunks received so far deliver the frames complete in them and leave the rest of those
chunks buffered, or end at the header that ends the stream. -/
theorem receiveAll_stream (limit : UInt32) (frames : List Frame) (tail : Bytes)
    (declared : Option Nat) (ending : Ending limit tail declared)
    (hwithin : ∀ frame ∈ frames, frame.payload.length ≤ limit.toNat) (chunks : List Bytes)
    (buffered later : Bytes)
    (hparse : parseNextFrame ⟨limit, buffered⟩ = (.error .needMoreData, ⟨limit, buffered⟩))
    (hstream : buffered ++ chunks.flatten ++ later = encodeAll frames ++ tail) :
    (∃ done todo rest, frames = done ++ todo ∧
      receiveAll ⟨limit, buffered⟩ chunks = (done.map .ok, ⟨limit, rest⟩) ∧
      parseNextFrame ⟨limit, rest⟩ = (.error .needMoreData, ⟨limit, rest⟩) ∧
      rest ++ later = encodeAll todo ++ tail ∧
      buffered ++ chunks.flatten = encodeAll done ++ rest) ∨
    ∃ size reported parser, declared = some size ∧
      receiveAll ⟨limit, buffered⟩ chunks =
        (frames.map .ok ++ .error (.oversize size) :: reported, parser) := by
  induction chunks generalizing buffered frames with
  | nil =>
    refine .inl ⟨[], frames, buffered, rfl, rfl, hparse, ?_, by simp [encodeAll]⟩
    simpa using hstream
  | cons chunk chunks ih =>
    have hchunk : (buffered ++ chunk) ++ (chunks.flatten ++ later) = encodeAll frames ++ tail := by
      simpa using hstream
    rcases drain_stream limit frames tail declared ending hwithin _ _ hchunk with
      ⟨done, todo, rest, rfl, hdrain, hrest, hlater, hbuffered⟩ | ⟨size, rfl, hdrain⟩
    · have htodo : ∀ frame ∈ todo, frame.payload.length ≤ limit.toNat :=
        fun frame hf => hwithin frame (by simp [hf])
      rcases ih todo htodo rest hrest (by simpa using hlater) with
        ⟨more, left, kept, rfl, hreceive, hkept, hend, hsplit⟩ | ⟨size, reported, parser, rfl, hreceive⟩
      · refine .inl ⟨done ++ more, left, kept, by simp, ?_, hkept, hend, ?_⟩
        · simp [receiveAll, feed, hdrain, hreceive, reports]
        · rw [List.flatten_cons, ← List.append_assoc, hbuffered, List.append_assoc, hsplit]
          simp [encodeAll]
      · exact .inr ⟨size, reported, parser, rfl,
          by simp [receiveAll, feed, hdrain, hreceive, reports]⟩
    · exact .inr ⟨size, (receiveAll ⟨limit, []⟩ chunks).1, (receiveAll ⟨limit, []⟩ chunks).2, rfl,
        by simp [receiveAll, feed, hdrain, reports]⟩

/-- The bytes of the delivered frames among the results of parsing calls. -/
def consumed : List (Except ParseError Frame) → Nat
  | [] => 0
  | .ok frame :: results => GrpcMessageSizeHeaderSize + frame.payload.length + consumed results
  | .error _ :: results => consumed results

/-- The bytes fed by a history of calls. -/
def fed : List Call → Nat
  | [] => 0
  | .feed data :: calls => data.length + fed calls
  | .parseNextFrame :: calls => fed calls

/-- Whatever the order of calls, the buffer holds the fed bytes that no delivered frame took. -/
theorem performAll_bytesAvailable (parser : GrpcDataParser) (calls : List Call)
    (hwithin : ∀ size, .error (.oversize size) ∉ (parser.performAll calls).1) :
    (parser.performAll calls).2.bytesAvailable + consumed (parser.performAll calls).1 =
      parser.bytesAvailable + fed calls := by
  induction calls generalizing parser with
  | nil => simp [performAll, consumed, fed]
  | cons call calls ih =>
    cases call with
    | feed data =>
      rw [performAll, fed, ih _ hwithin]
      simp [feed, bytesAvailable]
      omega
    | parseNextFrame =>
      simp only [performAll, List.mem_cons, not_or, fed] at hwithin ⊢
      have hlater := ih parser.parseNextFrame.2 fun size => (hwithin size).2
      rcases hparse : parser.parseNextFrame with ⟨reason | frame, next⟩
      · rw [hparse] at hwithin hlater
        rcases (parseNextFrame_error _ _ _ hparse).2 with ⟨rfl, rfl⟩ | ⟨⟨size, rfl, -⟩, -⟩
        · simpa [consumed] using hlater
        · exact absurd rfl (hwithin size).1
      · rw [hparse] at hlater
        have hframe := (parseNextFrame_ok _ _ _ hparse).2.2
        simp only [consumed]
        simp only at hlater
        omega

/-- A received stream of framed messages yields exactly those messages however it is cut into
chunks, the buffer always holds the bytes not consumed yet, and a frame that declares more than
the limit is reported right behind the messages before it. -/
theorem receiveAll_encodeAll (limit : UInt32) (frames : List Frame)
    (hwithin : ∀ frame ∈ frames, frame.payload.length ≤ limit.toNat) :
    (∀ chunks : List Bytes, chunks.flatten = encodeAll frames →
      receiveAll ⟨limit, []⟩ chunks = (frames.map .ok, ⟨limit, []⟩)) ∧
    (∀ chunks later : List Bytes, (chunks ++ later).flatten = encodeAll frames →
      ∃ delivered missing, frames = delivered ++ missing ∧
        (receiveAll ⟨limit, []⟩ chunks).1 = delivered.map .ok ∧
        (receiveAll ⟨limit, []⟩ chunks).2.bytesAvailable + (encodeAll delivered).length =
          chunks.flatten.length) ∧
    (∀ calls : List Call,
      (∀ size, .error (.oversize size) ∉ (performAll ⟨limit, []⟩ calls).1) →
      (performAll ⟨limit, []⟩ calls).2.bytesAvailable + consumed (performAll ⟨limit, []⟩ calls).1 =
        fed calls) ∧
    (∀ (chunks : List Bytes) (flag : UInt8) (declared : Nat) (rest : Bytes),
      limit.toNat < declared → declared < 2 ^ 32 →
      chunks.flatten = encodeAll frames ++ flag :: (toBigEndian 4 declared ++ rest) →
      ∃ reported parser, receiveAll ⟨limit, []⟩ chunks =
        (frames.map .ok ++ .error (.oversize declared) :: reported, parser)) := by
  have hempty : parseNextFrame ⟨limit, []⟩ = (.error .needMoreData, ⟨limit, []⟩) :=
    parseNextFrame_short _ (by simp [GrpcMessageSizeHeaderSize])
  refine ⟨fun chunks hchunks => ?_, fun chunks later hchunks => ?_, fun calls hcalls => ?_,
    fun chunks flag declared rest habove hwidth hchunks => ?_⟩
  · rcases receiveAll_stream limit frames [] none .finished hwithin chunks [] [] hempty
      (by simpa using hchunks) with
      ⟨done, todo, rest, rfl, hreceive, hkept, hend, -⟩ | ⟨size, _, _, h, -⟩
    · simp only [List.append_nil] at hend
      cases todo with
      | nil => simpa [encodeAll, hend] using hreceive
      | cons frame todo =>
        have hframe := parseNextFrame_encode limit frame (encodeAll todo) (hwithin frame (by simp))
        rw [show frame.encode ++ encodeAll todo = encodeAll (frame :: todo) from rfl, ← hend,
          hkept] at hframe
        cases hframe
    · cases h
  · rcases receiveAll_stream limit frames [] none .finished hwithin chunks [] later.flatten hempty
      (by simpa using hchunks) with
      ⟨done, todo, rest, hsplit, hreceive, -, -, hbytes⟩ | ⟨size, _, _, h, -⟩
    · refine ⟨done, todo, hsplit, by rw [hreceive], ?_⟩
      have hlength := congrArg List.length hbytes
      rw [hreceive]
      simp only [List.nil_append, List.length_append, bytesAvailable] at hlength ⊢
      omega
    · cases h
  · have h := performAll_bytesAvailable ⟨limit, []⟩ calls hcalls
    rw [show bytesAvailable ⟨limit, []⟩ = 0 from rfl] at h
    omega
  · rcases receiveAll_stream limit frames _ _ (.oversize flag declared rest habove hwidth) hwithin
      chunks [] [] hempty (by simpa using hchunks) with
      ⟨done, todo, kept, rfl, -, hkept, hend, -⟩ | ⟨size, reported, parser, h, hreceive⟩
    · rw [List.append_nil] at hend
      cases todo with
      | nil =>
        rw [hend, show encodeAll [] = [] from rfl, List.nil_append,
          parseNextFrame_oversize limit flag declared rest habove hwidth] at hkept
        cases hkept
      | cons frame todo =>
        have hframe := parseNextFrame_encode limit frame
          (encodeAll todo ++ flag :: (toBigEndian 4 declared ++ rest)) (hwithin frame (by simp))
        rw [← List.append_assoc, show frame.encode ++ encodeAll todo = encodeAll (frame :: todo)
          from rfl, ← hend, hkept] at hframe
        cases hframe
    · obtain rfl : declared = size := by simpa using h
      exact ⟨reported, parser, hreceive⟩

/-- Two messages, the first one empty, received in three chunks that straddle both frames. -/
theorem receiveAll_encodeAll_chunked :
    receiveAll ⟨4, []⟩ [[0, 0, 0], [0, 0, 1, 0, 0, 0], [2, 7, 8]] =
      ([.ok ⟨[], false⟩, .ok ⟨[7, 8], true⟩], ⟨4, []⟩) :=
  (receiveAll_encodeAll 4 [⟨[], false⟩, ⟨[7, 8], true⟩] (by decide)).1 _ (by decide)

end QtGrpc.Http2
