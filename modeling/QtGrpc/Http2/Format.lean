import QtGrpc.Http2.Options

/-!
# The content type and the serializer of an RPC

The content type is settled by the constructor of the channel, the serializer of an RPC by the
options in force when it starts. They agree as long as RPCs start in a format of the negotiated
suffix.
-/

namespace QtGrpc.Http2

/-- The content type sent for an RPC is that of the format whose serializer it uses. -/
def FormatAgrees (handler : Handler) : Prop :=
  ∀ value, (ascii "content-type", value) ∈ handler.initialHeaders →
    value = handler.format.contentType

/-- An RPC starts in a format with the suffix its channel was constructed for. -/
def StartsAsNegotiated (constructed : ChannelOptions) (channel : Channel) (input : ChannelInput) :
    Prop :=
  ∀ operation, input = .start operation →
    channel.channelOptions.serializationFormat.serializer ≠ none →
    channel.channelOptions.serializationFormat.suffix =
      (setupContentTypeNegotiation constructed).2.serializationFormat.suffix

/-- The content type tells the suffix. -/
theorem SerializationFormat.contentType_inj (first second : SerializationFormat) :
    first.contentType = second.contentType ↔ first.suffix = second.suffix := by
  constructor
  · intro h
    unfold SerializationFormat.contentType at h
    have hlength := congrArg List.length h
    by_cases hfirst : first.suffix.isEmpty = true
    · by_cases hsecond : second.suffix.isEmpty = true
      · rw [List.isEmpty_iff.mp hfirst, List.isEmpty_iff.mp hsecond]
      · rw [if_pos hfirst, if_neg hsecond] at hlength
        simp only [List.length_append] at hlength
        have : (ascii "+").length = 1 := by decide
        omega
    · by_cases hsecond : second.suffix.isEmpty = true
      · rw [if_neg hfirst, if_pos hsecond] at hlength
        simp only [List.length_append] at hlength
        have : (ascii "+").length = 1 := by decide
        omega
      · rw [if_neg hfirst, if_neg hsecond] at h
        exact List.append_cancel_left h
  · intro h
    rw [SerializationFormat.contentType, SerializationFormat.contentType, h]

/-- The negotiated content type is that of the format the channel goes on with. -/
theorem setupContentTypeNegotiation_contentType (channelOptions : ChannelOptions) :
    (setupContentTypeNegotiation channelOptions).1 =
      (setupContentTypeNegotiation channelOptions).2.serializationFormat.contentType := by
  unfold setupContentTypeNegotiation
  extract_lets formatSuffix negotiated
  dsimp only
  split
  · rfl
  · rename_i hsame
    rw [SerializationFormat.contentType_inj]
    simpa [formatSuffix] using hsame

/-- User metadata never become a content type. -/
theorem iterateMetadata_contentType (metadata : HttpHeader) (value : Bytes) :
    (ascii "content-type", value) ∉ iterateMetadata metadata := by
  intro hmem
  obtain ⟨⟨key, v⟩, -, hentry⟩ := List.mem_filterMap.mp hmem
  dsimp only at hentry
  split at hentry
  · cases hentry
  · rename_i hkept
    have hkey : key.toLower = ascii "content-type" := by simp_all
    simp [hkey] at hkept

/-- The one content type among the request headers is that of the channel. -/
theorem constructInitialHeaders_contentType (channel : Channel) (operation : Operation)
    (requestEncoding : CompressionAlgorithm) (value : Bytes) :
    (ascii "content-type", value) ∈ channel.constructInitialHeaders operation requestEncoding ↔
      value = channel.contentType := by
  have hencoding : ∀ entry ∈ (if requestEncoding = .identity then ([] : HttpHeader)
      else [(ascii "grpc-encoding", requestEncodingName requestEncoding)]),
      entry.1 ≠ ascii "content-type" := by
    split
    · simp
    · simp only [List.mem_singleton, forall_eq]
      decide
  have hfixed : (ascii "content-type" ≠ ascii ":authority" ∧ ascii "content-type" ≠ ascii ":method" ∧
      ascii "content-type" ≠ ascii ":path" ∧ ascii "content-type" ≠ ascii ":scheme") ∧
      ascii "content-type" ≠ ascii "service-name" ∧
      ascii "content-type" ≠ ascii "grpc-accept-encoding" ∧
      ascii "content-type" ≠ ascii "user-agent" ∧ ascii "content-type" ≠ ascii "te" := by
    decide
  unfold Channel.constructInitialHeaders
  rw [List.mem_append, List.mem_append, List.mem_append]
  constructor
  · rintro (((hmem | hmem) | hmem) | hmem)
    · simpa [hfixed] using hmem
    · exact absurd rfl (hencoding _ hmem)
    · exact absurd hmem (iterateMetadata_contentType _ value)
    · exact absurd hmem (iterateMetadata_contentType _ value)
  · rintro rfl
    exact .inl (.inl (.inl (by simp)))

namespace Channel

/-- The channel sends the content type it negotiated, and its RPCs so far agree with it. -/
structure Negotiated (constructed : ChannelOptions) (channel : Channel) : Prop where
  contentType : channel.contentType = (setupContentTypeNegotiation constructed).1
  agrees : ∀ handler ∈ channel.rpcs, FormatAgrees handler

/-- A handler agrees with the format exactly when the channel's content type is the one of its
options. -/
theorem startedHandler_agrees (channel : Channel) (operation : Operation) :
    FormatAgrees (channel.startedHandler operation) ↔
      channel.contentType = channel.channelOptions.serializationFormat.contentType := by
  unfold FormatAgrees
  constructor
  · intro h
    exact h _ ((constructInitialHeaders_contentType channel operation _ _).mpr rfl)
  · rintro h value hmem
    rw [(constructInitialHeaders_contentType channel operation _ value).mp hmem]
    exact h

/-- A handler that is turned down sends nothing. -/
theorem turnedDown_agrees (channel : Channel) (operation : Operation) (status : QGrpcStatus) :
    FormatAgrees (channel.turnedDown operation status) := by
  intro value hmem
  cases hmem

/-- A step of an RPC changes neither its headers nor its serializer. -/
theorem handlerStep_agrees {env : Environment} {channelOptions : ChannelOptions}
    {handler next : Handler} {input : Input}
    (hstep : handler.step env channelOptions input = some next) :
    FormatAgrees next ↔ FormatAgrees handler := by
  obtain ⟨rpc, -, rfl⟩ := Option.map_eq_some_iff.mp hstep
  rfl

/-- A start keeps to the agreement exactly when it starts as was negotiated. -/
theorem start_agrees {constructed : ChannelOptions} {channel : Channel} {operation : Operation}
    (h : channel.contentType = (setupContentTypeNegotiation constructed).1) :
    (∀ handler ∈ (channel.start operation).rpcs, FormatAgrees handler) ↔
      (∀ handler ∈ channel.rpcs, FormatAgrees handler) ∧
        StartsAsNegotiated constructed channel (.start operation) := by
  unfold StartsAsNegotiated
  simp only [ChannelInput.start.injEq, forall_eq']
  unfold start
  split
  · rename_i hnone
    simp only [List.mem_append, List.mem_singleton, or_imp, forall_and, forall_eq]
    simp [hnone, turnedDown_agrees]
  · rename_i serializer hsome
    simp only [List.mem_append, List.mem_singleton, or_imp, forall_and, forall_eq]
    rw [startedHandler_agrees, h, setupContentTypeNegotiation_contentType,
      SerializationFormat.contentType_inj, hsome]
    simp [eq_comm]

/-- The content type stays what it was at the construction. -/
theorem step_contentType {env : Environment} {channel next : Channel} {input : ChannelInput}
    (hstep : channel.step env input = some next) : next.contentType = channel.contentType := by
  cases input with
  | setChannelOptions channelOptions =>
    cases hstep
    rfl
  | start operation =>
    cases hstep
    unfold start
    split <;> rfl
  | turnDown operation status =>
    simp only [step] at hstep
    split at hstep <;> cases hstep
    rfl
  | rpc index input =>
    simp only [step] at hstep
    split at hstep
    · cases hstep
    · obtain ⟨handler, -, rfl⟩ := Option.map_eq_some_iff.mp hstep
      rfl

/-- All RPCs agree after a step exactly if they did before and the step starts none in a format
of another suffix. -/
theorem step_agrees {env : Environment} {constructed : ChannelOptions} {channel next : Channel}
    {input : ChannelInput} (h : channel.contentType = (setupContentTypeNegotiation constructed).1)
    (hstep : channel.step env input = some next) :
    (∀ handler ∈ next.rpcs, FormatAgrees handler) ↔
      (∀ handler ∈ channel.rpcs, FormatAgrees handler) ∧
        StartsAsNegotiated constructed channel input := by
  cases input with
  | setChannelOptions channelOptions =>
    cases hstep
    simp [StartsAsNegotiated]
  | start operation =>
    cases hstep
    exact start_agrees h
  | turnDown operation status =>
    simp only [step] at hstep
    split at hstep <;> cases hstep
    simp [StartsAsNegotiated, or_imp, forall_and, turnedDown_agrees]
  | rpc index input =>
    simp only [step] at hstep
    split at hstep
    · cases hstep
    rename_i handler hhandler
    obtain ⟨stepped, hstepped, rfl⟩ := Option.map_eq_some_iff.mp hstep
    have hsame := handlerStep_agrees hstepped
    obtain ⟨hindex, rfl⟩ := List.getElem?_eq_some_iff.mp hhandler
    simp only [StartsAsNegotiated, reduceCtorEq, false_implies, implies_true, and_true]
    constructor
    · intro hall other hother
      obtain ⟨j, hj, rfl⟩ := List.getElem_of_mem hother
      by_cases hji : index = j
      · subst hji
        exact hsame.mp (hall stepped (List.mem_set hindex stepped))
      · refine hall _ (List.mem_iff_getElem.mpr ⟨j, by simpa using hj, ?_⟩)
        rw [List.getElem_set_ne hji]
    · intro hall other hother
      rcases List.mem_or_eq_of_mem_set hother with hmem | rfl
      · exact hall other hmem
      · exact hsame.mpr (hall _ (List.getElem_mem hindex))

/-- A new channel has the content type of its options. -/
theorem construct_negotiated (endpoint : Endpoint) (channelOptions : ChannelOptions) :
    Negotiated channelOptions (construct endpoint channelOptions) :=
  ⟨rfl, by simp [construct]⟩

end Channel

/-- In a run of a channel the content type of every RPC names the format of its serializer exactly
if every RPC starts in a format of the suffix the channel was constructed for. -/
theorem formatAgrees_iff (env : Environment) (endpoint : Endpoint) (constructed : ChannelOptions)
    (final : Channel) (inputs : List ChannelInput)
    (hrun : Transition.run (Channel.step env) (Channel.construct endpoint constructed) inputs =
      some final) :
    (∀ handler ∈ final.rpcs, FormatAgrees handler) ↔
      Transition.Along (Channel.step env) (StartsAsNegotiated constructed)
        (Channel.construct endpoint constructed) inputs := by
  constructor
  · intro hagrees
    refine Transition.along_of_run (Channel.step env) (StartsAsNegotiated constructed)
      (fun channel => channel.contentType = (setupContentTypeNegotiation constructed).1)
      (fun channel => channel.contentType = (setupContentTypeNegotiation constructed).1 ∧
        ¬ ∀ handler ∈ channel.rpcs, FormatAgrees handler) ?_ ?_ ?_ _ final inputs rfl hrun
      fun hbroken => hbroken.2 hagrees
    · intro channel input next h _ hstep
      rw [Channel.step_contentType hstep, h]
    · intro channel input next h hcondition hstep
      refine ⟨by rw [Channel.step_contentType hstep, h], fun hall => ?_⟩
      exact hcondition ((Channel.step_agrees h hstep).mp hall).2
    · intro channel input next h hstep
      refine ⟨by rw [Channel.step_contentType hstep, h.1], fun hall => ?_⟩
      exact h.2 ((Channel.step_agrees h.1 hstep).mp hall).1
  · intro halong
    have hnegotiated := Transition.run_invariant_along (Channel.step env)
      (StartsAsNegotiated constructed) (Channel.Negotiated constructed)
      (fun channel input next h hcondition hstep =>
        ⟨by rw [Channel.step_contentType hstep, h.contentType],
          (Channel.step_agrees h.contentType hstep).mpr ⟨h.agrees, hcondition⟩⟩)
      _ final inputs (Channel.construct_negotiated endpoint constructed) halong hrun
    exact hnegotiated.agrees

/-- A host for the runs of this file. -/
def plainEndpoint : Endpoint where
  authorityHeader := ascii "localhost"
  schemeHeader := ascii "http"
  userAgent := ascii "grpc-c++-qtgrpc"

/-- A unary call with an empty message. -/
def plainCall : Operation where
  service := ascii "Service"
  method := ascii "Method"
  rpcType := .unaryCall
  callOptions := {}
  data := []
  compressed := none

/-- A channel constructed for the default format is switched to JSON before a call. -/
def switchedToJson : List ChannelInput :=
  [.setChannelOptions { serializationFormat := .json }, .start plainCall]

/-- The call sends JSON as `application/grpc`. -/
theorem not_formatAgrees_switchedToJson :
    ∃ final, Transition.run (Channel.step plainEnvironment) (Channel.construct plainEndpoint {})
        switchedToJson = some final ∧ ¬ ∀ handler ∈ final.rpcs, FormatAgrees handler := by
  refine ⟨_, rfl, fun hall => ?_⟩
  have hdefault := hall _ (List.mem_singleton.mpr rfl) (ascii "application/grpc") (by decide)
  exact absurd hdefault (by decide)

/-- A channel constructed for the default format is switched to JSON after a call. -/
def switchedAfterwards : List ChannelInput :=
  [.start plainCall, .setChannelOptions { serializationFormat := .json }]

/-- The call was started in the format of the construction, and agrees with it. -/
theorem formatAgrees_iff_switchedAfterwards :
    ∃ final, Transition.run (Channel.step plainEnvironment) (Channel.construct plainEndpoint {})
        switchedAfterwards = some final ∧
      final.rpcs ≠ [] ∧ ∀ handler ∈ final.rpcs, FormatAgrees handler := by
  refine ⟨_, rfl, by decide, ?_⟩
  refine (formatAgrees_iff plainEnvironment plainEndpoint {} _ switchedAfterwards rfl).mpr ?_
  refine ⟨fun _ _ _ => rfl, fun _ _ => ⟨fun _ hstart => ?_, fun _ _ => trivial⟩⟩
  cases hstart

end QtGrpc.Http2
