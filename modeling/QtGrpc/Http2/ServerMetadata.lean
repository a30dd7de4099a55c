import QtGrpc.Http2.Headers
import Mathlib.Data.Multiset.Filter

/-!
# Server metadata

Which entries of a header block `handleHeaders` hands to the operation as metadata: all of them if
the metadata is not filtered, and otherwise those that do not belong to the transport. A block of
trailers is the exception: nothing in that phase takes out the content type.
-/

namespace QtGrpc.Http2

/-- The metadata of a `QMultiHash`: what was inserted, in no order. -/
abbrev Metadata := Multiset (Bytes × Bytes)

/-- The metadata a block that is not rejected yields. -/
def HeadersOutcome.metadata : HeadersOutcome → Option HttpHeader
  | .finish _ => none
  | .initialMetadata metadata => some metadata
  | .trailingMetadata metadata _ => some metadata

/-- The metadata an operation keeps of its server. -/
structure QGrpcOperationContext where
  serverInitialMetadata : Metadata := 0
  serverTrailingMetadata : Metadata := 0

namespace QGrpcOperationContext

variable (intercepted : Metadata → Metadata) (context : QGrpcOperationContext)

/-- `setServerInitialMetadata`, with what the interceptors make of the metadata. -/
def setServerInitialMetadata (metadata : Metadata) : QGrpcOperationContext :=
  { context with serverInitialMetadata := intercepted metadata }

/-- `setServerTrailingMetadata`, with what the interceptors make of the metadata. -/
def setServerTrailingMetadata (metadata : Metadata) : QGrpcOperationContext :=
  if context.serverTrailingMetadata = intercepted metadata then context
  else { context with serverTrailingMetadata := intercepted metadata }

/-- What the handler hands to the operation. -/
def deliver : HeadersOutcome → QGrpcOperationContext
  | .finish _ => context
  | .initialMetadata metadata => context.setServerInitialMetadata intercepted metadata
  | .trailingMetadata metadata _ => context.setServerTrailingMetadata intercepted metadata

/-- The metadata of the operation that a phase sets. -/
def metadataOf (phase : HeaderPhase) : Metadata :=
  match phase with
  | .initial => context.serverInitialMetadata
  | .trailers | .trailersOnly => context.serverTrailingMetadata

end QGrpcOperationContext

/-- A key of the transport: a pseudo-header, a reserved key or the content type. -/
def isTransportKey (k : Bytes) : Bool :=
  (ascii ":").isPrefixOf k || (ascii "grpc-").isPrefixOf k || k = ascii "content-type"

/-- The metadata that the options promise of a block. -/
def promisedMetadata (options : HeaderOptions) (headers : HttpHeader) : HttpHeader :=
  if options.filterServerMetadata then headers.filter fun entry => !isTransportKey entry.1
  else headers

/-- The entries that are reported in a phase. -/
def isReported (options : HeaderOptions) (phase : HeaderPhase) (k : Bytes) : Bool :=
  !options.filterServerMetadata ||
    !((ascii ":").isPrefixOf k || (ascii "grpc-").isPrefixOf k ||
      (phase.requireHttpStatus && k = ascii "content-type"))

/-- An entry that is accepted is reported or not, as its key and the phase say. -/
theorem HeaderScan.entry_ok_metadata (env : Environment) (options : HeaderOptions)
    (phase : HeaderPhase) (scan next : HeaderScan) (k v : Bytes)
    (h : scan.entry env options phase k v = .ok next) :
    next.metadata = scan.metadata ++ if isReported options phase k then [(k, v)] else [] := by
  have hstatus : (ascii ":").isPrefixOf (ascii ":status") = true := by decide
  have hgrpcStatus : (ascii "grpc-").isPrefixOf (ascii "grpc-status") = true := by decide
  have hmessage : (ascii "grpc-").isPrefixOf (ascii "grpc-message") = true := by decide
  have hdetails : (ascii "grpc-").isPrefixOf (ascii "grpc-status-details-bin") = true := by decide
  have hencoding : (ascii "grpc-").isPrefixOf (ascii "grpc-encoding") = true := by decide
  have haccept : (ascii "grpc-").isPrefixOf (ascii "grpc-accept-encoding") = true := by decide
  have hcontent : (ascii "grpc-").isPrefixOf (ascii "content-type") = false := by decide
  have hpseudo : (ascii ":").isPrefixOf (ascii "content-type") = false := by decide
  rw [isReported]
  unfold HeaderScan.entry at h
  cases phase with
  | initial => cases hfilter : options.filterServerMetadata <;> grind [HeaderPhase.requireHttpStatus]
  | trailers => cases hfilter : options.filterServerMetadata <;> grind [HeaderPhase.requireHttpStatus]
  | trailersOnly =>
    cases hfilter : options.filterServerMetadata <;> grind [HeaderPhase.requireHttpStatus]

/-- The entries of an accepted block are reported in their order. -/
theorem HeaderScan.entries_ok_metadata (env : Environment) (options : HeaderOptions)
    (phase : HeaderPhase) (scan final : HeaderScan) (headers : HttpHeader)
    (h : scan.entries env options phase headers = .ok final) :
    final.metadata =
      scan.metadata ++ headers.filter fun entry => isReported options phase entry.1 := by
  induction headers generalizing scan with
  | nil =>
    cases h
    rw [List.filter_nil, List.append_nil]
  | cons entry headers ih =>
    obtain ⟨k, v⟩ := entry
    rw [HeaderScan.entries] at h
    split at h
    · cases h
    · rename_i next hentry
      rw [ih next h, entry_ok_metadata env options phase scan next k v hentry, List.filter_cons,
        List.append_assoc]
      cases isReported options phase k <;> rfl

/-- A block that is not rejected hands on the entries that are reported. -/
theorem handleHeaders_metadata {env : Environment} {options : HeaderOptions} {phase : HeaderPhase}
    {negotiatedEncoding : Bytes} {decompressor : Bool} {headers metadata : HttpHeader}
    (h : (handleHeaders env options phase negotiatedEncoding decompressor headers).1.metadata =
      some metadata) :
    metadata = headers.filter fun entry => isReported options phase entry.1 := by
  unfold handleHeaders at h
  dsimp only at h
  split at h
  · cases h
  · rename_i scan hentries
    have hscan := HeaderScan.entries_ok_metadata env options phase _ scan headers hentries
    rw [List.nil_append] at hscan
    have hmetadata : scan.metadata = metadata := by
      unfold HeadersOutcome.metadata at h
      grind
    rw [← hmetadata, hscan]

/-- Trailers are filtered, and yet contain a content type. -/
def LeaksContentType (options : HeaderOptions) (phase : HeaderPhase) (headers : HttpHeader) : Prop :=
  options.filterServerMetadata = true ∧ phase = .trailers ∧
    ∃ entry ∈ headers, entry.1 = ascii "content-type"

/-- A key that is reported and belongs to the transport is the content type of trailers. -/
theorem isReported_eq (options : HeaderOptions) (phase : HeaderPhase) (k : Bytes) :
    isReported options phase k = (!options.filterServerMetadata || !isTransportKey k ||
      (phase = .trailers && k = ascii "content-type")) := by
  have hpseudo : (ascii ":").isPrefixOf (ascii "content-type") = false := by decide
  have hgrpc : (ascii "grpc-").isPrefixOf (ascii "content-type") = false := by decide
  rw [isReported, isTransportKey]
  by_cases hk : k = ascii "content-type"
  · subst hk
    cases phase <;> simp [hpseudo, hgrpc, HeaderPhase.requireHttpStatus]
  · simp [hk]

/-- What is reported is what is promised, unless trailers leak their content type. -/
theorem filter_isReported_iff (options : HeaderOptions) (phase : HeaderPhase)
    (headers : HttpHeader) :
    ((headers.filter fun entry => isReported options phase entry.1 : HttpHeader) : Metadata) =
      promisedMetadata options headers ↔ ¬ LeaksContentType options phase headers := by
  constructor
  · rintro heq ⟨hfilter, rfl, entry, hentry, hk⟩
    have htransport : isTransportKey (ascii "content-type") = true := by decide
    have hreported : entry ∈ headers.filter fun entry => isReported options .trailers entry.1 := by
      rw [List.mem_filter, isReported_eq, hk]
      exact ⟨hentry, by simp⟩
    have hpromised : entry ∈ (promisedMetadata options headers : Metadata) := by
      rw [← heq]
      exact hreported
    rw [Multiset.mem_coe, promisedMetadata, if_pos hfilter, List.mem_filter, hk, htransport]
      at hpromised
    exact Bool.false_ne_true hpromised.2
  · intro hleak
    congr 1
    rw [promisedMetadata]
    split
    · rename_i hfilter
      refine List.filter_congr fun entry hentry => ?_
      have hno : (decide (phase = .trailers) && decide (entry.1 = ascii "content-type")) = false := by
        rw [Bool.and_eq_false_iff]
        by_cases hphase : phase = .trailers
        · exact Or.inr (decide_eq_false fun hk => hleak ⟨hfilter, hphase, entry, hentry, hk⟩)
        · exact Or.inl (decide_eq_false hphase)
      rw [isReported_eq, hfilter, hno]
      simp
    · rename_i hfilter
      rw [List.filter_eq_self]
      intro entry hentry
      rw [isReported_eq]
      simp [hfilter]

/-- A block sets the metadata of its phase. -/
theorem metadataOf_deliver (intercepted : Metadata → Metadata) (context : QGrpcOperationContext)
    {env : Environment} {options : HeaderOptions} {phase : HeaderPhase}
    {negotiatedEncoding : Bytes} {decompressor : Bool} {headers metadata : HttpHeader}
    (h : (handleHeaders env options phase negotiatedEncoding decompressor headers).1.metadata =
      some metadata) :
    (context.deliver intercepted
      (handleHeaders env options phase negotiatedEncoding decompressor headers).1).metadataOf phase =
      intercepted metadata := by
  cases houtcome : (handleHeaders env options phase negotiatedEncoding decompressor headers).1 with
  | finish status =>
    rw [houtcome] at h
    cases h
  | initialMetadata initial =>
    have hphase := handleHeaders_initialMetadata env options phase negotiatedEncoding decompressor
      headers initial houtcome
    rw [houtcome] at h
    cases h
    subst hphase
    rfl
  | trailingMetadata trailing status =>
    have hphase := (handleHeaders_trailingMetadata env options phase negotiatedEncoding decompressor
      headers trailing status houtcome).1
    rw [houtcome] at h
    cases h
    have htrailing : (context.setServerTrailingMetadata intercepted metadata).serverTrailingMetadata =
        intercepted metadata := by
      rw [QGrpcOperationContext.setServerTrailingMetadata]
      split
      · assumption
      · rfl
    cases phase with
    | initial => exact absurd rfl hphase
    | trailers => exact htrailing
    | trailersOnly => exact htrailing

/-- The metadata that a block hands to the operation is what the options promise exactly if no
trailers leak their content type; the operation keeps what the interceptors make of it. -/
theorem handleHeaders_metadata_iff (env : Environment) (options : HeaderOptions)
    (phase : HeaderPhase) (negotiatedEncoding : Bytes) (decompressor : Bool)
    (headers metadata : HttpHeader) (intercepted : Metadata → Metadata)
    (context : QGrpcOperationContext)
    (h : (handleHeaders env options phase negotiatedEncoding decompressor headers).1.metadata =
      some metadata) :
    ((metadata : Metadata) = promisedMetadata options headers ↔
      ¬ LeaksContentType options phase headers) ∧
    (context.deliver intercepted
      (handleHeaders env options phase negotiatedEncoding decompressor headers).1).metadataOf phase =
      intercepted metadata := by
  refine ⟨?_, metadataOf_deliver intercepted context h⟩
  rw [handleHeaders_metadata h]
  exact filter_isReported_iff options phase headers

/-- Numbers of one digit, and ASCII texts. -/
def sampleEnvironment : Environment where
  toInt v := if v = ascii "200" then some 200 else none
  toShort v := if v = ascii "0" then some 0 else none
  fromUtf8 _ := ""
  setEncoding _ := true

def sampleOptions : HeaderOptions :=
  { acceptedCompressionAlgorithms := [], filterServerMetadata := true }

/-- Trailers with metadata of the application and a content type. -/
def sampleTrailers : HttpHeader :=
  [(ascii "grpc-status", ascii "0"), (ascii "key", ascii "a"), (ascii "key", ascii "a"),
    (ascii "content-type", ascii "application/grpc")]

/-- The same as a response of trailers only. -/
def sampleTrailersOnly : HttpHeader := (ascii ":status", ascii "200") :: sampleTrailers

theorem handleHeaders_metadata_iff_sample :
    (([(ascii "key", ascii "a"), (ascii "key", ascii "a")] : HttpHeader) : Metadata) =
      promisedMetadata sampleOptions sampleTrailersOnly :=
  (handleHeaders_metadata_iff sampleEnvironment sampleOptions .trailersOnly [] false
    sampleTrailersOnly [(ascii "key", ascii "a"), (ascii "key", ascii "a")] id {}
    (by decide)).1.mpr fun h => by cases h.2.1

/-- Filtered trailers hand their content type to the operation. -/
theorem contentType_of_trailers : ∃ metadata : HttpHeader,
    (handleHeaders sampleEnvironment sampleOptions .trailers [] false sampleTrailers).1.metadata =
      some metadata ∧
    (ascii "content-type", ascii "application/grpc") ∈ metadata ∧
    (metadata : Metadata) ≠ promisedMetadata sampleOptions sampleTrailers := by
  refine ⟨[(ascii "key", ascii "a"), (ascii "key", ascii "a"),
    (ascii "content-type", ascii "application/grpc")], by decide, by decide, ?_⟩
  intro heq
  have hlength := congrArg Multiset.card heq
  rw [Multiset.coe_card, Multiset.coe_card] at hlength
  revert hlength
  decide

end QtGrpc.Http2
