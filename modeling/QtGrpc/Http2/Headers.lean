import QtGrpc.Bytes

/-!
# Status codes and received header blocks

`handleHeaders` validates one header block against its phase and either hands on initial
metadata, finishes the RPC with the server's status, or finishes it with the first violation.
-/

namespace QtGrpc.Http2

/-- The gRPC status codes. -/
inductive StatusCode where
  | ok | cancelled | unknown | invalidArgument | deadlineExceeded | notFound | alreadyExists
  | permissionDenied | resourceExhausted | failedPrecondition | aborted | outOfRange
  | unimplemented | internal | unavailable | dataLoss | unauthenticated
deriving DecidableEq, Repr

/-- The code of a wire value; values above `Unauthenticated` have none. -/
def StatusCode.ofInt? : Int → Option StatusCode
  | 0 => some .ok
  | 1 => some .cancelled
  | 2 => some .unknown
  | 3 => some .invalidArgument
  | 4 => some .deadlineExceeded
  | 5 => some .notFound
  | 6 => some .alreadyExists
  | 7 => some .permissionDenied
  | 8 => some .resourceExhausted
  | 9 => some .failedPrecondition
  | 10 => some .aborted
  | 11 => some .outOfRange
  | 12 => some .unimplemented
  | 13 => some .internal
  | 14 => some .unavailable
  | 15 => some .dataLoss
  | 16 => some .unauthenticated
  | _ => none

/-- The status an RPC finishes with; a default-constructed one is `Ok` without a message. -/
structure QGrpcStatus where
  code : StatusCode := .ok
  message : String := ""
deriving DecidableEq, Repr

/-- The status code of an HTTP/2 error code. -/
def http2ErrorToStatusCode (http2Error : UInt32) : StatusCode :=
  match http2Error.toNat with
  | 0x7 => .unavailable
  | 0x8 => .cancelled
  | 0xb => .resourceExhausted
  | 0xc => .permissionDenied
  | 0xd => .unknown
  | _ => .internal

/-- The status code of an HTTP response status. -/
def http2StatusToStatusCode (status : Int) : StatusCode :=
  match status with
  | 200 => .ok
  | 400 => .internal
  | 401 => .unauthenticated
  | 403 => .permissionDenied
  | 404 => .unimplemented
  | 429 | 502 | 503 | 504 => .unavailable
  | _ => .unknown

theorem http2ErrorToStatusCode_ne_ok (http2Error : UInt32) :
    http2ErrorToStatusCode http2Error ≠ .ok := by
  unfold http2ErrorToStatusCode
  split <;> decide

/-- Only the success status of HTTP maps to success. -/
theorem http2StatusToStatusCode_ne_ok (status : Int) (h : status ≠ 200) :
    http2StatusToStatusCode status ≠ .ok := by
  unfold http2StatusToStatusCode
  split <;> first | exact absurd rfl h | decide

/-- The message encodings a client can ask for. -/
inductive CompressionAlgorithm where
  | identity | deflate | gzip
deriving DecidableEq, Repr

/-- The position of a header block within a response. -/
inductive HeaderPhase where
  | initial | trailers | trailersOnly
deriving DecidableEq, Repr

/-- One header block in the order received. -/
abbrev HttpHeader := List (Bytes × Bytes)

/-- What the library code outside the repository answers: number and text conversion of
header values, and whether a decompressor can be set up for an encoding. -/
structure Environment where
  toInt : Bytes → Option Int
  toShort : Bytes → Option Int
  fromUtf8 : Bytes → String
  setEncoding : Bytes → Bool

/-- Whether the client advertised an encoding the server chose. -/
def isAcceptedEncoding (v : Bytes) (accepted : List CompressionAlgorithm) : Bool :=
  if v = ascii "identity" then true
  else if v = ascii "gzip" then accepted.contains .gzip
  else if v = ascii "deflate" then accepted.contains .deflate
  else false

/-- The fixed settings `handleHeaders` consults. -/
structure HeaderOptions where
  acceptedCompressionAlgorithms : List CompressionAlgorithm
  filterServerMetadata : Bool
deriving Repr

/-- The locals of the loop over the header entries, and the decompression members it sets. -/
structure HeaderScan where
  hasHttpStatus : Bool := false
  hasContentType : Bool := false
  statusCode : Option StatusCode := none
  statusMessage : String := ""
  metadata : HttpHeader := []
  negotiatedEncoding : Bytes
  decompressor : Bool
deriving DecidableEq, Repr

/-- Trailers carry neither the HTTP status nor the content type. -/
def HeaderPhase.requireHttpStatus (phase : HeaderPhase) : Bool := phase != .trailers

/-- Every phase but the initial one carries the gRPC status. -/
def HeaderPhase.requireGrpcStatus (phase : HeaderPhase) : Bool := phase != .initial

/-- One entry of the block: the scan afterwards, whether the entry may be reported as
metadata, or the status that ends the RPC. -/
def HeaderScan.entry (env : Environment) (options : HeaderOptions) (phase : HeaderPhase)
    (scan : HeaderScan) (k v : Bytes) : Except (QGrpcStatus × HeaderScan) HeaderScan :=
  let reported (scan : HeaderScan) : HeaderScan :=
    if options.filterServerMetadata then scan
    else { scan with metadata := scan.metadata ++ [(k, v)] }
  if phase.requireHttpStatus ∧ k = ascii ":status" then
    let status := (env.toInt v).getD 0
    if status ≠ 200 then
      .error (⟨http2StatusToStatusCode status, "Received HTTP/2 status: " ++ env.fromUtf8 v⟩, scan)
    else .ok (reported { scan with hasHttpStatus := true })
  else if phase.requireHttpStatus ∧ k = ascii "content-type" then
    if (ascii "application/grpc").isPrefixOf v.toLower then
      .ok (reported { scan with hasContentType := true })
    else .error (⟨.internal, "Unexpected content-type: " ++ env.fromUtf8 v⟩, scan)
  else if phase.requireGrpcStatus ∧ k = ascii "grpc-status" then
    match (env.toShort v).bind StatusCode.ofInt? with
    | none => .error (⟨.unknown, "Received invalid gRPC-status: " ++ env.fromUtf8 v⟩, scan)
    | some code => .ok (reported { scan with statusCode := some code })
  else if phase.requireGrpcStatus ∧ k = ascii "grpc-message" then
    .ok (reported { scan with statusMessage := env.fromUtf8 v })
  else if phase.requireGrpcStatus ∧ k = ascii "grpc-status-details-bin" then .ok (reported scan)
  else if phase = .initial ∧ k = ascii "grpc-encoding" then
    if ¬ isAcceptedEncoding v options.acceptedCompressionAlgorithms then
      .error (⟨.internal, "Server responded with an encoding not advertised by client: " ++
        env.fromUtf8 v⟩, scan)
    else if v = ascii "identity" then .ok (reported { scan with negotiatedEncoding := [] })
    else if ¬ env.setEncoding v then
      .error (⟨.internal, "Failed to initialize decompressor for algorithm: " ++
        env.fromUtf8 v⟩, { scan with decompressor := true })
    else .ok (reported { scan with decompressor := true, negotiatedEncoding := v })
  else if phase = .initial ∧ k = ascii "grpc-accept-encoding" then .ok (reported scan)
  else if (ascii ":").isPrefixOf k then .ok (reported scan)
  else if (ascii "grpc-").isPrefixOf k then .ok (reported scan)
  else .ok { scan with metadata := scan.metadata ++ [(k, v)] }

/-- All entries of the block in order, up to the first violation. -/
def HeaderScan.entries (env : Environment) (options : HeaderOptions) (phase : HeaderPhase)
    (scan : HeaderScan) : HttpHeader → Except (QGrpcStatus × HeaderScan) HeaderScan
  | [] => .ok scan
  | (k, v) :: headers =>
    match scan.entry env options phase k v with
    | .error violation => .error violation
    | .ok next => next.entries env options phase headers

/-- What a header block makes the handler do. -/
inductive HeadersOutcome where
  | finish (status : QGrpcStatus)
  | initialMetadata (metadata : HttpHeader)
  | trailingMetadata (metadata : HttpHeader) (status : QGrpcStatus)
deriving DecidableEq, Repr

/-- Validate one block: the outcome and the decompression members afterwards. -/
def handleHeaders (env : Environment) (options : HeaderOptions) (phase : HeaderPhase)
    (negotiatedEncoding : Bytes) (decompressor : Bool) (headers : HttpHeader) :
    HeadersOutcome × HeaderScan :=
  let start : HeaderScan :=
    { negotiatedEncoding := negotiatedEncoding, decompressor := decompressor }
  match start.entries env options phase headers with
  | .error (status, scan) => (.finish status, scan)
  | .ok scan =>
    if phase.requireHttpStatus ∧ ¬ scan.hasHttpStatus then
      (.finish ⟨.internal, "Missing valid ':status' header"⟩, scan)
    else if phase.requireHttpStatus ∧ ¬ scan.hasContentType then
      (.finish ⟨.internal, "Missing valid 'content-type' header"⟩, scan)
    else match phase, scan.statusCode with
      | .initial, _ => (.initialMetadata scan.metadata, scan)
      | _, none => (.finish ⟨.internal, "Missing status code in trailers"⟩, scan)
      | _, some code => (.trailingMetadata scan.metadata ⟨code, scan.statusMessage⟩, scan)

/-- The status code a block of trailers announces: that of its last `grpc-status` entry. -/
def grpcStatus (env : Environment) (headers : HttpHeader) : Option StatusCode :=
  ((headers.filter fun entry => entry.1 = ascii "grpc-status").getLast?).bind fun entry =>
    (env.toShort entry.2).bind StatusCode.ofInt?

/-- A violation found in a header entry is never reported as success. -/
theorem HeaderScan.entry_error_ne_ok (env : Environment) (options : HeaderOptions)
    (phase : HeaderPhase) (scan : HeaderScan) (k v : Bytes) (violation : QGrpcStatus × HeaderScan)
    (h : scan.entry env options phase k v = .error violation) : violation.1.code ≠ .ok := by
  unfold HeaderScan.entry at h
  grind [http2StatusToStatusCode_ne_ok]

theorem HeaderScan.entries_error_ne_ok (env : Environment) (options : HeaderOptions)
    (phase : HeaderPhase) (scan : HeaderScan) (headers : HttpHeader)
    (violation : QGrpcStatus × HeaderScan)
    (h : scan.entries env options phase headers = .error violation) :
    violation.1.code ≠ .ok := by
  induction headers generalizing scan with
  | nil => cases h
  | cons entry headers ih =>
    obtain ⟨k, v⟩ := entry
    rw [HeaderScan.entries] at h
    split at h
    · rename_i found hentry
      cases h
      exact entry_error_ne_ok env options phase scan k v violation hentry
    · exact ih _ h

/-- Behind the initial phase an accepted entry sets the status code exactly if it is named so. -/
theorem HeaderScan.entry_ok_statusCode (env : Environment) (options : HeaderOptions)
    (phase : HeaderPhase) (scan next : HeaderScan) (k v : Bytes)
    (hphase : phase.requireGrpcStatus = true)
    (h : scan.entry env options phase k v = .ok next) :
    next.statusCode = if k = ascii "grpc-status" then (env.toShort v).bind StatusCode.ofInt?
      else scan.statusCode := by
  have hstatus : ascii ":status" ≠ ascii "grpc-status" := by decide
  have hcontent : ascii "content-type" ≠ ascii "grpc-status" := by decide
  unfold HeaderScan.entry at h
  grind

/-- The last status entry of an accepted block is the one that counts. -/
theorem HeaderScan.entries_ok_statusCode (env : Environment) (options : HeaderOptions)
    (phase : HeaderPhase) (scan final : HeaderScan) (headers : HttpHeader)
    (hphase : phase.requireGrpcStatus = true)
    (h : scan.entries env options phase headers = .ok final) :
    final.statusCode =
      match (headers.filter fun entry => entry.1 = ascii "grpc-status").getLast? with
      | none => scan.statusCode
      | some entry => (env.toShort entry.2).bind StatusCode.ofInt? := by
  induction headers generalizing scan with
  | nil =>
    cases h
    rfl
  | cons entry headers ih =>
    obtain ⟨k, v⟩ := entry
    rw [HeaderScan.entries] at h
    split at h
    · cases h
    · rename_i next hentry
      have hnext := entry_ok_statusCode env options phase scan next k v hphase hentry
      rw [ih next h]
      by_cases hk : k = ascii "grpc-status"
      · rw [List.filter_cons_of_pos (by simpa using hk), List.getLast?_cons, hnext, if_pos hk]
        cases (headers.filter fun entry => entry.1 = ascii "grpc-status").getLast? <;> rfl
      · rw [List.filter_cons_of_neg (by simpa using hk), hnext, if_neg hk]

/-- A rejected block never finishes the RPC with success. -/
theorem handleHeaders_finish_ne_ok (env : Environment) (options : HeaderOptions)
    (phase : HeaderPhase) (negotiatedEncoding : Bytes) (decompressor : Bool)
    (headers : HttpHeader) (status : QGrpcStatus)
    (h : (handleHeaders env options phase negotiatedEncoding decompressor headers).1 =
      .finish status) : status.code ≠ .ok := by
  unfold handleHeaders at h
  dsimp only at h
  split at h
  · rename_i violation scan hentries
    cases h
    exact HeaderScan.entries_error_ne_ok env options phase _ headers _ hentries
  · grind

/-- Only the first block of a response yields initial metadata. -/
theorem handleHeaders_initialMetadata (env : Environment) (options : HeaderOptions)
    (phase : HeaderPhase) (negotiatedEncoding : Bytes) (decompressor : Bool)
    (headers metadata : HttpHeader)
    (h : (handleHeaders env options phase negotiatedEncoding decompressor headers).1 =
      .initialMetadata metadata) : phase = .initial := by
  unfold handleHeaders at h
  grind

/-- A block that ends the RPC with the server's status is a block of trailers announcing it. -/
theorem handleHeaders_trailingMetadata (env : Environment) (options : HeaderOptions)
    (phase : HeaderPhase) (negotiatedEncoding : Bytes) (decompressor : Bool)
    (headers metadata : HttpHeader) (status : QGrpcStatus)
    (h : (handleHeaders env options phase negotiatedEncoding decompressor headers).1 =
      .trailingMetadata metadata status) :
    phase ≠ .initial ∧ grpcStatus env headers = some status.code := by
  unfold handleHeaders at h
  dsimp only at h
  split at h
  · cases h
  · rename_i scan hentries
    have hphase : phase ≠ .initial := by
      rintro rfl
      grind
    have hcode : scan.statusCode = some status.code := by grind
    refine ⟨hphase, ?_⟩
    rw [HeaderScan.entries_ok_statusCode env options phase _ scan headers
      (by simpa [HeaderPhase.requireGrpcStatus] using hphase) hentries] at hcode
    unfold grpcStatus
    split at hcode
    · cases hcode
    · rename_i entry hentry
      rw [hentry]
      exact hcode

end QtGrpc.Http2
