import Mathlib.Data.List.Induction
import QtGrpc.Http2.Effect
import QtGrpc.Http2.FrameStream

/-!
# The order of outgoing data

Accepted messages wait in a queue and are handed to the stream one upload at a time. In every
reachable configuration what was handed over and what still waits are together what was
accepted, the request headers precede all data, and the upload that closes the stream is the
last one.
-/

namespace QtGrpc.Http2

/-- The events that concern the request: calls accepted, and calls into the stream. -/
def Event.outgoing : Event → Bool
  | .writeMessage _ | .writesDone | .attachStream | .sendHEADERS | .sendDATA _ _
  | .uploadStarted | .uploadEnded => true
  | _ => false

/-- The queue entries accepted so far; `writesDone` enqueues the empty closing marker. -/
def accepted (trace : List Event) : List Bytes :=
  trace.filterMap fun
    | .writeMessage message => some message
    | .writesDone => some []
    | _ => none

/-- The payloads handed to the stream so far. -/
def handed (trace : List Event) : List Bytes :=
  trace.filterMap fun
    | .sendDATA payload _ => some payload
    | _ => none

/-- Whether the stream attached last has been handed the request headers. -/
def headersSent (trace : List Event) : Bool :=
  trace.foldl (fun sent e =>
    match e with
    | .attachStream => false
    | .sendHEADERS => true
    | _ => sent) false

/-- The uploads started and not ended. -/
def outstanding (trace : List Event) : Nat :=
  trace.foldl (fun uploads e =>
    match e with
    | .uploadStarted => uploads + 1
    | .uploadEnded => uploads - 1
    | _ => uploads) 0

/-- The entries accepted up to another event. -/
@[simp] theorem accepted_concat (trace : List Event) (e : Event) :
    accepted (trace ++ [e]) = accepted trace ++ accepted [e] := by simp [accepted]

/-- The payloads handed over up to another event. -/
@[simp] theorem handed_concat (trace : List Event) (e : Event) :
    handed (trace ++ [e]) = handed trace ++ handed [e] := by simp [handed]

/-- What the handler may do towards the stream. -/
structure OrderedUploads (endStreamAtFirstData : Bool) (trace : List Event) : Prop where
  inOrder : handed trace <+: accepted trace
  headersFirst : ∀ before payload endStream after,
    trace = before ++ .sendDATA payload endStream :: after →
      headersSent before = true ∧ outstanding before = 0
  oneUpload : ∀ before after, trace = before ++ after → outstanding before ≤ 1
  endStreamLast : ∀ before payload after, trace = before ++ .sendDATA payload true :: after →
    handed after = [] ∧ (payload = [] ∧ .writesDone ∈ before ∨
      endStreamAtFirstData = true ∧ accepted before = [payload])

namespace Rpc

/-- The attached stream is busy with an upload. -/
def isUploading (rpc : Rpc) : Bool :=
  match rpc.stream with
  | some stream => stream.isUploadingDATA
  | none => false

/-- The states between the request headers and the end. -/
def requestSent (rpc : Rpc) : Prop := rpc.state = .requestHeadersSent ∨ rpc.state = .active

/-- How the queue, the stream and the code in flight relate to what has happened. -/
structure Outgoing (endStreamAtFirstData : Bool) (rpc : Rpc) : Prop where
  queue : handed rpc.trace ++ rpc.queue = accepted rpc.trace
  message : ∀ m, .writeMessage m ∈ rpc.trace → m ≠ []
  marker : [] ∈ accepted rpc.trace → rpc.writesDoneSent = true
  markerLast : [] ∉ (accepted rpc.trace).dropLast
  single : endStreamAtFirstData = true → (accepted rpc.trace).length ≤ 1
  closing : ∀ payload endStream, .sendDATA payload endStream ∈ rpc.trace →
    endStream = (payload.isEmpty || endStreamAtFirstData)
  uploads : outstanding rpc.trace = if rpc.isUploading then 1 else 0
  headersState : rpc.requestSent → headersSent rpc.trace = true
  headersUpload : rpc.isUploading = true → headersSent rpc.trace = true
  headersStack : ∀ draining, .processQueue draining ∈ rpc.stack → headersSent rpc.trace = true
  headersSending : .sendDATA ∈ rpc.stack → headersSent rpc.trace = true
  sendingTop : .sendDATA ∉ rpc.stack.tail
  sendingIdle : .sendDATA ∈ rpc.stack → rpc.isUploading = false
  ordered : OrderedUploads endStreamAtFirstData rpc.trace

end Rpc

/-- Events that do not concern the request leave its order alone. -/
theorem OrderedUploads.concat {endStreamAtFirstData : Bool} {trace : List Event} {e : Event}
    (h : OrderedUploads endStreamAtFirstData trace)
    (horder : handed (trace ++ [e]) <+: accepted (trace ++ [e]))
    (hupload : outstanding (trace ++ [e]) ≤ 1)
    (hsend : ∀ payload endStream, e = .sendDATA payload endStream →
      headersSent trace = true ∧ outstanding trace = 0 ∧
      (∀ payload, .sendDATA payload true ∉ trace) ∧
      (endStream = true → payload = [] ∧ .writesDone ∈ trace ∨
        endStreamAtFirstData = true ∧ accepted trace = [payload])) :
    OrderedUploads endStreamAtFirstData (trace ++ [e]) := by
  refine ⟨horder, fun before payload endStream after hsplit => ?_, fun before after hsplit => ?_,
    fun before payload after hsplit => ?_⟩
  · rcases concat_eq_append_cons hsplit with ⟨-, rfl, rfl⟩ | ⟨rest, -, hrest⟩
    · exact ⟨(hsend payload endStream rfl).1, (hsend payload endStream rfl).2.1⟩
    · exact h.headersFirst before payload endStream rest hrest
  · rcases List.eq_nil_or_concat after with rfl | ⟨rest, last, rfl⟩
    · rw [List.append_nil] at hsplit
      rwa [← hsplit]
    · rw [List.concat_eq_append, ← List.append_assoc, List.append_singleton_inj] at hsplit
      exact h.oneUpload before rest hsplit.1
  · rcases concat_eq_append_cons hsplit with ⟨rfl, rfl, rfl⟩ | ⟨rest, rfl, hrest⟩
    · exact ⟨rfl, (hsend payload true rfl).2.2.2 rfl⟩
    · obtain ⟨hafter, hkind⟩ := h.endStreamLast before payload rest hrest
      refine ⟨?_, hkind⟩
      rw [handed_concat, hafter]
      cases e with
      | sendDATA later endStream =>
        exact absurd (by rw [hrest]; simp) ((hsend later endStream rfl).2.2.1 payload)
      | _ => rfl

/-- Only attaching a stream and sending the headers tell whether they are sent. -/
@[simp] theorem headersSent_concat (trace : List Event) (e : Event) :
    headersSent (trace ++ [e]) =
      match e with
      | .attachStream => false
      | .sendHEADERS => true
      | _ => headersSent trace := by
  simp [headersSent]

/-- Only the begin and the end of an upload change their number. -/
@[simp] theorem outstanding_concat (trace : List Event) (e : Event) :
    outstanding (trace ++ [e]) =
      match e with
      | .uploadStarted => outstanding trace + 1
      | .uploadEnded => outstanding trace - 1
      | _ => outstanding trace := by
  simp [outstanding]

/-- What a step that does not concern the request leaves alone. -/
structure OutgoingSame (trace longer : List Event) : Prop where
  accepted : accepted longer = accepted trace
  handed : handed longer = handed trace
  headersSent : headersSent longer = headersSent trace
  outstanding : outstanding longer = outstanding trace
  mem : ∀ e, e.outgoing = true → (e ∈ longer ↔ e ∈ trace)
  ordered : ∀ endStreamAtFirstData, OrderedUploads endStreamAtFirstData trace →
    OrderedUploads endStreamAtFirstData longer

/-- Nothing happens. -/
theorem OutgoingSame.refl (trace : List Event) : OutgoingSame trace trace :=
  ⟨rfl, rfl, rfl, rfl, fun _ _ => Iff.rfl, fun _ h => h⟩

/-- An event that does not concern the request changes nothing about it. -/
theorem OutgoingSame.concat {trace longer : List Event} (h : OutgoingSame trace longer) {e : Event}
    (he : e.outgoing = false) : OutgoingSame trace (longer ++ [e]) := by
  have haccepted : QtGrpc.Http2.accepted (longer ++ [e]) = QtGrpc.Http2.accepted longer := by
    cases e <;> simp_all [Event.outgoing, QtGrpc.Http2.accepted]
  have hhanded : QtGrpc.Http2.handed (longer ++ [e]) = QtGrpc.Http2.handed longer := by
    cases e <;> simp_all [Event.outgoing, QtGrpc.Http2.handed]
  have houtstanding : QtGrpc.Http2.outstanding (longer ++ [e]) =
      QtGrpc.Http2.outstanding longer := by
    cases e <;> simp_all [Event.outgoing]
  refine ⟨haccepted.trans h.accepted, hhanded.trans h.handed, ?_, houtstanding.trans h.outstanding,
    fun e' he' => ?_, fun endStreamAtFirstData hordered => ?_⟩
  · rw [← h.headersSent]
    cases e <;> simp_all [Event.outgoing]
  · rw [List.mem_append, List.mem_singleton, h.mem e' he', or_iff_left]
    rintro rfl
    rw [he] at he'
    cases he'
  · have hlonger := h.ordered endStreamAtFirstData hordered
    refine hlonger.concat (by rw [hhanded, haccepted]; exact hlonger.inOrder) ?_ ?_
    · rw [houtstanding]
      exact hlonger.oneUpload longer [] (by simp)
    · rintro payload endStream rfl
      cases he

namespace Rpc

/-- A step beside the request: the queue and the stream stay, and nothing is handed over. -/
structure Aside (rpc next : Rpc) : Prop where
  trace : OutgoingSame rpc.trace next.trace
  queue : next.queue = rpc.queue
  uploading : next.isUploading = rpc.isUploading
  writesDoneSent : next.writesDoneSent = rpc.writesDoneSent
  requestSent : next.requestSent → rpc.requestSent
  stack : ∀ code ∈ next.stack, code ∈ rpc.stack ∨
    code ≠ .sendDATA ∧ ∀ draining, code ≠ .processQueue draining

/-- Nothing happens. -/
theorem Aside.refl (rpc : Rpc) : Aside rpc rpc :=
  ⟨.refl _, rfl, rfl, rfl, id, fun _ h => .inl h⟩

/-- Two steps that do not concern the request are one. -/
theorem Aside.trans {a b c : Rpc} (hab : Aside a b) (hbc : Aside b c) : Aside a c where
  trace :=
    ⟨hbc.trace.accepted.trans hab.trace.accepted, hbc.trace.handed.trans hab.trace.handed,
      hbc.trace.headersSent.trans hab.trace.headersSent,
      hbc.trace.outstanding.trans hab.trace.outstanding,
      fun e he => (hbc.trace.mem e he).trans (hab.trace.mem e he),
      fun b h => hbc.trace.ordered b (hab.trace.ordered b h)⟩
  queue := hbc.queue.trans hab.queue
  uploading := hbc.uploading.trans hab.uploading
  writesDoneSent := hbc.writesDoneSent.trans hab.writesDoneSent
  requestSent h := hab.requestSent (hbc.requestSent h)
  stack code h := (hbc.stack code h).elim (hab.stack code) .inr

/-- The stream is not deciding about data that were just handed over. -/
def Clear (rpc : Rpc) : Prop := .sendDATA ∉ rpc.stack

/-- Such a step does not make the stream decide about data. -/
theorem Aside.clear {rpc next : Rpc} (haside : Aside rpc next) (hclear : Clear rpc) :
    Clear next := fun hmem =>
  (haside.stack _ hmem).elim hclear fun h => h.1 rfl

/-- Steps beside the request keep its order. -/
theorem Outgoing.aside {endStreamAtFirstData : Bool} {rpc next : Rpc}
    (h : Outgoing endStreamAtFirstData rpc) (hclear : Clear rpc) (haside : Aside rpc next) :
    Outgoing endStreamAtFirstData next where
  queue := by rw [haside.trace.handed, haside.queue, haside.trace.accepted, h.queue]
  message m hm := h.message m ((haside.trace.mem _ rfl).mp hm)
  marker hm := by
    rw [haside.writesDoneSent]
    exact h.marker (haside.trace.accepted ▸ hm)
  markerLast := by
    rw [haside.trace.accepted]
    exact h.markerLast
  single hfirst := by
    rw [haside.trace.accepted]
    exact h.single hfirst
  closing payload endStream hm := h.closing payload endStream ((haside.trace.mem _ rfl).mp hm)
  uploads := by rw [haside.trace.outstanding, haside.uploading, h.uploads]
  headersState hs := by
    rw [haside.trace.headersSent]
    exact h.headersState (haside.requestSent hs)
  headersUpload hu := by
    rw [haside.trace.headersSent]
    exact h.headersUpload (haside.uploading ▸ hu)
  headersStack draining hmem := by
    rw [haside.trace.headersSent]
    exact h.headersStack draining ((haside.stack _ hmem).elim id fun hne =>
      absurd rfl (hne.2 draining))
  headersSending hmem := absurd hmem (haside.clear hclear)
  sendingTop hmem := haside.clear hclear (List.mem_of_mem_tail hmem)
  sendingIdle hmem := absurd hmem (haside.clear hclear)
  ordered := haside.trace.ordered _ h.ordered

/-- A signal to the user does not concern the request. -/
theorem emit_aside {rpc next : Rpc} (h : Aside rpc next) {e : Event} (he : e.outgoing = false) :
    Aside rpc (next.emit e) :=
  ⟨h.trace.concat he, h.queue, h.uploading, h.writesDoneSent, h.requestSent, h.stack⟩

/-- Nor does code that is yet to run, unless it works on the queue. -/
theorem push_aside {rpc next : Rpc} (h : Aside rpc next) (code : List Continuation)
    (hcode : ∀ c ∈ code, c ≠ .sendDATA ∧ ∀ draining, c ≠ .processQueue draining) :
    Aside rpc (next.push code) :=
  ⟨h.trace, h.queue, h.uploading, h.writesDoneSent, h.requestSent, fun c hc =>
    (List.mem_append.mp hc).elim (fun hmem => .inr (hcode c hmem)) (h.stack c)⟩

/-- The end of the operation does not concern the request. -/
theorem contextFinished_aside (rpc : Rpc) (status : QGrpcStatus) (after : List Continuation)
    (hafter : ∀ c ∈ after, c ≠ .sendDATA ∧ ∀ draining, c ≠ .processQueue draining) :
    Aside rpc (rpc.contextFinished status after) := by
  unfold contextFinished
  split
  · exact push_aside (.refl rpc) after hafter
  · refine push_aside ?_ _ (by simpa using hafter)
    refine emit_aside ?_ rfl
    exact ⟨.refl _, rfl, rfl, rfl, id, fun _ h => .inl h⟩

/-- Nor does the handler's. -/
theorem finish_aside (rpc : Rpc) (status : QGrpcStatus) : Aside rpc (rpc.finish status) := by
  unfold finish
  split
  · exact ⟨.refl _, rfl, rfl, rfl, by simp [requestSent], fun _ h => .inl h⟩
  · split
    · exact .refl rpc
    · refine Aside.trans ?_ (contextFinished_aside _ status _ (by simp))
      refine ⟨.refl _, rfl, rfl, rfl, fun hsent => ?_, fun _ h => .inl h⟩
      dsimp only [requestSent] at hsent
      split at hsent <;> simp at hsent

/-- Nor does one that is yet to come. -/
theorem asyncFinish_aside (rpc : Rpc) (status : QGrpcStatus) :
    Aside rpc (rpc.asyncFinish status) := by
  unfold asyncFinish
  split
  · exact ⟨.refl _, rfl, rfl, rfl, by simp [requestSent], fun _ h => .inl h⟩
  · exact ⟨.refl _, rfl, rfl, rfl, id, fun _ h => .inl h⟩

/-- Nor does a cancellation. -/
theorem cancelWithStatus_aside (rpc : Rpc) (status : QGrpcStatus) :
    Aside rpc (rpc.cancelWithStatus status) := by
  unfold cancelWithStatus
  split
  · exact .refl rpc
  · have hcancelled : Aside rpc { rpc with state := .cancelled } :=
      ⟨.refl _, rfl, rfl, rfl, by simp [requestSent], fun _ h => .inl h⟩
    dsimp only
    split
    · split
      · exact hcancelled.trans (finish_aside _ status)
      · exact (emit_aside hcancelled rfl).trans (finish_aside _ status)
    · exact hcancelled.trans (finish_aside _ status)

/-- The closing marker can only come from `writesDone`. -/
theorem Outgoing.writesDone_mem {endStreamAtFirstData : Bool} {rpc : Rpc}
    (h : Outgoing endStreamAtFirstData rpc) (hmarker : [] ∈ accepted rpc.trace) :
    .writesDone ∈ rpc.trace := by
  obtain ⟨e, he, hentry⟩ := List.mem_filterMap.mp hmarker
  cases e with
  | writeMessage m =>
    obtain rfl : m = [] := by simpa using hentry
    exact absurd rfl (h.message [] he)
  | writesDone => exact he
  | _ => cases hentry

/-- While entries wait, none that closes the stream has been handed over. -/
theorem Outgoing.not_closed {endStreamAtFirstData : Bool} {rpc : Rpc}
    (h : Outgoing endStreamAtFirstData rpc) (hwaiting : rpc.queue ≠ []) (payload : Bytes) :
    .sendDATA payload true ∉ rpc.trace := by
  intro hmem
  have hhanded : payload ∈ handed rpc.trace := List.mem_filterMap.mpr ⟨_, hmem, rfl⟩
  have hclosing := h.closing payload true hmem
  rw [eq_comm, Bool.or_eq_true, List.isEmpty_iff] at hclosing
  rcases hclosing with rfl | hfirst
  · apply h.markerLast
    rw [← h.queue, List.dropLast_append_of_ne_nil hwaiting]
    exact List.mem_append_left _ hhanded
  · have hsingle := h.single hfirst
    have hlength := congrArg List.length h.queue
    have hpos := List.length_pos_of_mem hhanded
    have hqueue := List.length_pos_iff.mpr hwaiting
    rw [List.length_append] at hlength
    omega

/-- Handing the next entry to an idle stream behind the request headers. -/
theorem sendNext_outgoing {endStreamAtFirstData : Bool} {rpc : Rpc}
    (h : Outgoing endStreamAtFirstData rpc) (hclear : Clear rpc)
    (hidle : rpc.isUploading = false) (hheaders : headersSent rpc.trace = true) :
    Outgoing endStreamAtFirstData (rpc.sendNext endStreamAtFirstData) := by
  unfold sendNext
  split
  · exact h
  rename_i m queue hqueue
  set close := m.isEmpty || endStreamAtFirstData with hclose
  have hwaiting : rpc.queue ≠ [] := by simp [hqueue]
  have hm : m ∈ accepted rpc.trace := by
    rw [← h.queue, hqueue]
    simp
  have hnone : outstanding rpc.trace = 0 := by simp [h.uploads, hidle]
  have hhanded : handed (rpc.trace ++ [.sendDATA m close]) ++ queue = accepted rpc.trace := by
    rw [handed_concat, ← h.queue, hqueue]
    simp [handed]
  have haccepted : accepted (rpc.trace ++ [.sendDATA m close]) = accepted rpc.trace := by
    simp [accepted]
  refine
    { queue := by simpa [emit, push, haccepted] using hhanded
      message := fun m' hm' => h.message m' (by simpa [emit, push] using hm')
      marker := fun hmarker => h.marker (by simpa [emit, push, haccepted] using hmarker)
      markerLast := by simpa [emit, push, haccepted] using h.markerLast
      single := fun hfirst => by simpa [emit, push, haccepted] using h.single hfirst
      closing := fun payload endStream hmem => ?_
      uploads := (outstanding_concat rpc.trace (.sendDATA m close)).trans h.uploads
      headersState := fun hsent => by simpa [emit, push] using h.headersState hsent
      headersUpload := fun hupload => by simpa [emit, push] using h.headersUpload hupload
      headersStack := fun _ _ => by simpa [emit, push] using hheaders
      headersSending := fun _ => by simpa [emit, push] using hheaders
      sendingTop := hclear
      sendingIdle := fun _ => hidle
      ordered := ?_ }
  · rcases List.mem_append.mp hmem with hmem | hmem
    · exact h.closing payload endStream hmem
    · obtain ⟨rfl, rfl⟩ : payload = m ∧ endStream = close := by simpa using hmem
      exact hclose
  · refine h.ordered.concat (haccepted ▸ ⟨queue, hhanded⟩) (by simp [hnone]) ?_
    intro payload endStream hevent
    obtain ⟨rfl, rfl⟩ : m = payload ∧ close = endStream := by simpa using hevent
    refine ⟨hheaders, hnone, h.not_closed hwaiting, fun htrue => ?_⟩
    rw [hclose, Bool.or_eq_true, List.isEmpty_iff] at htrue
    rcases htrue with rfl | hfirst
    · exact .inl ⟨rfl, h.writesDone_mem hm⟩
    · have hsingle := h.single hfirst
      refine .inr ⟨hfirst, ?_⟩
      obtain ⟨x, hx⟩ : ∃ x, accepted rpc.trace = [x] := by
        apply List.length_eq_one_iff.mp
        have := List.length_pos_of_mem hm
        omega
      rw [hx] at hm ⊢
      rw [List.mem_singleton.mp hm]

/-- The work on the queue keeps the order, once the headers are sent. -/
theorem processQueue_outgoing {endStreamAtFirstData : Bool} {rpc : Rpc}
    (h : Outgoing endStreamAtFirstData rpc) (hclear : Clear rpc)
    (hheaders : rpc.state ≠ .idle → headersSent rpc.trace = true) :
    Outgoing endStreamAtFirstData (rpc.processQueue endStreamAtFirstData) := by
  unfold processQueue
  split
  · exact h
  rename_i stream hstream
  split
  · exact h
  rename_i hstate
  split
  · exact h
  rename_i hbusy
  split
  · exact h
  have hsent := hheaders hstate
  have hidle : rpc.isUploading = false := by simpa [isUploading, hstream] using hbusy
  refine sendNext_outgoing ?_ (by simpa [Clear, push] using hclear) hidle hsent
  exact
    { h with
      headersStack := fun _ _ => hsent
      headersSending := fun _ => hsent
      sendingTop := hclear
      sendingIdle := fun _ => hidle }

/-- Accepting one more entry, a message or the closing marker. -/
theorem enqueue_outgoing {endStreamAtFirstData : Bool} {rpc next : Rpc}
    (h : Outgoing endStreamAtFirstData rpc) (hopen : rpc.writesDoneSent = false)
    (hfirst : endStreamAtFirstData = true → accepted rpc.trace = []) (e : Event) (m : Bytes)
    (hentry : e = .writeMessage m ∧ m ≠ [] ∨
      e = .writesDone ∧ m = [] ∧ next.writesDoneSent = true)
    (htrace : next.trace = rpc.trace ++ [e]) (hqueue : next.queue = rpc.queue ++ [m])
    (hstream : next.stream = rpc.stream) (hstate : next.state = rpc.state)
    (hstack : next.stack = rpc.stack) : Outgoing endStreamAtFirstData next := by
  have hunmarked : [] ∉ accepted rpc.trace := fun hmem => by
    have := h.marker hmem
    rw [hopen] at this
    cases this
  have hupload : next.isUploading = rpc.isUploading := by simp [isUploading, hstream]
  have haccepted : accepted next.trace = accepted rpc.trace ++ [m] := by
    rw [htrace, accepted_concat]
    rcases hentry with ⟨rfl, -⟩ | ⟨rfl, rfl, -⟩ <;> rfl
  have hhanded : handed next.trace = handed rpc.trace := by
    rw [htrace, handed_concat]
    rcases hentry with ⟨rfl, -⟩ | ⟨rfl, -⟩ <;> simp [handed]
  have hsent : headersSent next.trace = headersSent rpc.trace := by
    rw [htrace]
    rcases hentry with ⟨rfl, -⟩ | ⟨rfl, -⟩ <;> simp
  have houtstanding : outstanding next.trace = outstanding rpc.trace := by
    rw [htrace]
    rcases hentry with ⟨rfl, -⟩ | ⟨rfl, -⟩ <;> simp
  refine
    { queue := by rw [hhanded, hqueue, haccepted, ← h.queue, List.append_assoc]
      message := fun m' hm' => ?_
      marker := fun hmarker => ?_
      markerLast := by rwa [haccepted, List.dropLast_concat]
      single := fun hone => by rw [haccepted, hfirst hone]; simp
      closing := fun payload endStream hmem => h.closing payload endStream ?_
      uploads := by rw [houtstanding, hupload, h.uploads]
      headersState := fun hs => by
        rw [hsent]
        exact h.headersState (by simpa [requestSent, hstate] using hs)
      headersUpload := fun hu => by
        rw [hsent]
        exact h.headersUpload (hupload ▸ hu)
      headersStack := fun draining hmem => by
        rw [hsent]
        exact h.headersStack draining (hstack ▸ hmem)
      headersSending := fun hmem => by
        rw [hsent]
        exact h.headersSending (hstack ▸ hmem)
      sendingTop := by rw [hstack]; exact h.sendingTop
      sendingIdle := fun hmem => by
        rw [hupload]
        exact h.sendingIdle (hstack ▸ hmem)
      ordered := ?_ }
  · rw [htrace] at hm'
    rcases List.mem_append.mp hm' with hm' | hm'
    · exact h.message m' hm'
    · rcases hentry with ⟨rfl, hm⟩ | ⟨rfl, -⟩
      · obtain rfl : m' = m := by simpa using hm'
        exact hm
      · simp at hm'
  · rw [haccepted] at hmarker
    rcases List.mem_append.mp hmarker with hmem | hmem
    · exact absurd hmem hunmarked
    · rcases hentry with ⟨-, hm⟩ | ⟨-, -, hdone⟩
      · exact absurd (List.mem_singleton.mp hmem).symm hm
      · exact hdone
  · rw [htrace] at hmem
    rcases List.mem_append.mp hmem with hmem | hmem
    · exact hmem
    · rcases hentry with ⟨rfl, -⟩ | ⟨rfl, -⟩ <;> simp at hmem
  · have horder : handed next.trace <+: accepted next.trace := by
      rw [hhanded, haccepted]
      exact h.ordered.inOrder.trans (List.prefix_append _ _)
    rw [htrace] at horder houtstanding ⊢
    refine h.ordered.concat horder ?_ ?_
    · rw [houtstanding]
      exact h.ordered.oneUpload rpc.trace [] (by simp)
    · rintro payload endStream rfl
      rcases hentry with ⟨hevent, -⟩ | ⟨hevent, -⟩ <;> cases hevent

/-- The frame of a message is never the empty entry that closes the request. -/
theorem frameOutgoing_ne_nil (requestEncoding : CompressionAlgorithm) (data : Bytes)
    (compressed : Option Bytes) : frameOutgoing requestEncoding data compressed ≠ [] := by
  unfold frameOutgoing
  split
  · split <;> simp [frameMessage]
  · simp [frameMessage]

/-- The states in which the drain may run have sent the request headers. -/
theorem Outgoing.headers_of_open {endStreamAtFirstData : Bool} {rpc : Rpc}
    (h : Outgoing endStreamAtFirstData rpc) (hended : ¬ rpc.state.ended = true)
    (hstate : rpc.state ≠ .idle) : headersSent rpc.trace = true := by
  apply h.headersState
  unfold requestSent
  cases hs : rpc.state <;> simp_all [State.ended]

/-- Writing a message keeps the order; a request that ends with its first message has none before.
-/
theorem writeMessage_outgoing {rpc : Rpc} (options : HandlerOptions) (data : Bytes)
    (compressed : Option Bytes) (h : Outgoing options.rpcType.endStreamAtFirstData rpc)
    (hclear : Clear rpc)
    (hfirst : options.rpcType.endStreamAtFirstData = true → accepted rpc.trace = []) :
    Outgoing options.rpcType.endStreamAtFirstData (rpc.writeMessage options data compressed) := by
  unfold writeMessage
  split
  · exact h
  rename_i hopen
  obtain ⟨hdone, hended, -⟩ : rpc.writesDoneSent = false ∧ ¬ rpc.state.ended = true ∧
      ¬ rpc.isStreamClosedForSending = true := by simpa [not_or] using hopen
  split
  · exact h.aside hclear (finish_aside rpc _)
  · refine processQueue_outgoing (enqueue_outgoing h hdone hfirst _ _
      (.inl ⟨rfl, frameOutgoing_ne_nil _ data compressed⟩) rfl rfl rfl rfl rfl) hclear fun hstate => ?_
    simpa [emit] using h.headers_of_open hended hstate

/-- Closing the request keeps the order of one that streams. -/
theorem writesDone_outgoing {rpc : Rpc} (options : HandlerOptions)
    (h : Outgoing options.rpcType.endStreamAtFirstData rpc) (hclear : Clear rpc)
    (hstreaming : options.rpcType.endStreamAtFirstData = false) :
    Outgoing options.rpcType.endStreamAtFirstData (rpc.writesDone options) := by
  unfold writesDone
  split
  · exact h
  rename_i hopen
  obtain ⟨hdone, hended⟩ : rpc.writesDoneSent = false ∧ ¬ rpc.state.ended = true := by
    simpa [not_or] using hopen
  dsimp only
  split
  · exact { h with marker := fun _ => rfl }
  · refine processQueue_outgoing (enqueue_outgoing h hdone (by simp [hstreaming]) .writesDone []
      (.inr ⟨rfl, rfl, rfl⟩) rfl rfl rfl rfl rfl) hclear fun hstate => ?_
    simpa [emit] using h.headers_of_open hended hstate

/-- An event that starts or ends the carriage of the request, but is no entry of the queue. -/
theorem carriage_outgoing {endStreamAtFirstData : Bool} {rpc next : Rpc}
    (h : Outgoing endStreamAtFirstData rpc) (e : Event) (htrace : next.trace = rpc.trace ++ [e])
    (hentry : accepted [e] = [] ∧ handed [e] = []) (hqueue : next.queue = rpc.queue)
    (hdone : next.writesDoneSent = rpc.writesDoneSent)
    (huploads : outstanding next.trace = if next.isUploading then 1 else 0)
    (hstate : next.requestSent → headersSent next.trace = true)
    (hupload : next.isUploading = true → headersSent next.trace = true)
    (hstack : ∀ draining, .processQueue draining ∈ next.stack → headersSent next.trace = true)
    (hsending : .sendDATA ∉ next.stack) : Outgoing endStreamAtFirstData next := by
  have haccepted : accepted next.trace = accepted rpc.trace := by
    rw [htrace, accepted_concat, hentry.1, List.append_nil]
  have hhanded : handed next.trace = handed rpc.trace := by
    rw [htrace, handed_concat, hentry.2, List.append_nil]
  have hmem (e' : Event) (he' : accepted [e'] ≠ [] ∨ handed [e'] ≠ []) (h : e' ∈ next.trace) :
      e' ∈ rpc.trace := by
    rw [htrace] at h
    rcases List.mem_append.mp h with h | h
    · exact h
    · obtain rfl := List.mem_singleton.mp h
      simp [hentry] at he'
  exact
    { queue := by rw [hhanded, hqueue, haccepted, h.queue]
      message := fun m hm => h.message m (hmem _ (.inl (by simp [accepted])) hm)
      marker := fun hm => by
        rw [hdone]
        exact h.marker (haccepted ▸ hm)
      markerLast := by rw [haccepted]; exact h.markerLast
      single := fun hfirst => by rw [haccepted]; exact h.single hfirst
      closing := fun payload endStream hm =>
        h.closing payload endStream (hmem _ (.inr (by simp [handed])) hm)
      uploads := huploads
      headersState := hstate
      headersUpload := hupload
      headersStack := hstack
      headersSending := fun hm => absurd hm hsending
      sendingTop := fun hm => hsending (List.mem_of_mem_tail hm)
      sendingIdle := fun hm => absurd hm hsending
      ordered := by
        have horder : handed next.trace <+: accepted next.trace := by
          rw [hhanded, haccepted]
          exact h.ordered.inOrder
        rw [htrace] at horder huploads ⊢
        refine h.ordered.concat horder (by rw [huploads]; split <;> simp) ?_
        rintro payload endStream rfl
        simp [handed] at hentry }

/-- An upload ends, whether it was completed or dropped. -/
theorem uploadEnded_outgoing {endStreamAtFirstData : Bool} {rpc next : Rpc}
    (h : Outgoing endStreamAtFirstData rpc) (hclear : Clear rpc) (hbusy : rpc.isUploading = true)
    (hidle : next.isUploading = false) (htrace : next.trace = rpc.trace ++ [.uploadEnded])
    (hqueue : next.queue = rpc.queue) (hdone : next.writesDoneSent = rpc.writesDoneSent)
    (hstate : next.state = rpc.state) (hstack : next.stack = rpc.stack) :
    Outgoing endStreamAtFirstData next := by
  have hsent : headersSent next.trace = headersSent rpc.trace := by simp [htrace]
  refine carriage_outgoing h .uploadEnded htrace ⟨rfl, rfl⟩ hqueue hdone ?_ ?_ ?_ ?_ ?_
  · rw [htrace, outstanding_concat, hidle]
    simp [h.uploads, hbusy]
  · intro hs
    rw [hsent]
    exact h.headersState (by simpa [requestSent, hstate] using hs)
  · simp [hidle]
  · intro draining hmem
    rw [hsent]
    exact h.headersStack draining (hstack ▸ hmem)
  · rw [hstack]
    exact hclear

/-- Losing the stream keeps the order. -/
theorem dropStream_outgoing {endStreamAtFirstData : Bool} {rpc : Rpc}
    (h : Outgoing endStreamAtFirstData rpc) (hclear : Clear rpc) :
    Outgoing endStreamAtFirstData rpc.dropStream := by
  unfold dropStream
  split
  · rename_i stream hstream
    split
    · rename_i hbusy
      exact uploadEnded_outgoing h hclear (by simpa [isUploading, hstream] using hbusy) rfl rfl rfl
        rfl rfl rfl
    · rename_i hidle
      refine h.aside hclear ⟨.refl _, rfl, ?_, rfl, id, fun _ h => .inl h⟩
      simpa [isUploading, hstream] using hidle
  · exact h

/-- The end of the operation object keeps the order. -/
theorem destroy_outgoing {endStreamAtFirstData : Bool} {rpc : Rpc}
    (h : Outgoing endStreamAtFirstData rpc) (hclear : Clear rpc) :
    Outgoing endStreamAtFirstData rpc.destroy := by
  refine dropStream_outgoing ?_ hclear
  exact h.aside hclear ⟨.refl _, rfl, rfl, rfl, id, fun _ h => .inl h⟩

/-- Sending the request keeps the order: the headers come first. -/
theorem sendInitialRequest_outgoing {rpc : Rpc} (options : HandlerOptions) (sendHEADERS : Bool)
    (h : Outgoing options.rpcType.endStreamAtFirstData rpc) (hclear : Clear rpc)
    (hstack : rpc.stack = []) :
    Outgoing options.rpcType.endStreamAtFirstData (rpc.sendInitialRequest options sendHEADERS) := by
  unfold sendInitialRequest
  split
  · exact h
  split
  · exact h.aside hclear (asyncFinish_aside rpc _)
  refine processQueue_outgoing ?_ (by simp [Clear, push, emit, hstack]) (by simp [push, emit])
  refine carriage_outgoing h .sendHEADERS rfl ⟨rfl, rfl⟩ rfl rfl ?_ ?_ ?_ ?_ ?_
  · exact (outstanding_concat rpc.trace .sendHEADERS).trans h.uploads
  all_goals simp [push, emit, hstack]

/-- Received headers do not concern the request. -/
theorem headersReceived_aside (env : Environment) (options : HandlerOptions) (rpc : Rpc)
    (headers : HttpHeader) (endStream : Bool) :
    Aside rpc (rpc.headersReceived env options headers endStream) := by
  unfold headersReceived
  split
  · exact ⟨.refl _, rfl, rfl, rfl, id, fun _ h => .inl h⟩
  rename_i hended
  split
  · exact .refl rpc
  rename_i phase hphase
  dsimp only
  split
  · exact ⟨.refl _, rfl, rfl, rfl, by simp [requestSent], fun _ h => .inl h⟩
  have hhandled (negotiatedEncoding : Bytes) (decompressor : Bool) :
      Aside rpc (({ rpc with
        state := .active
        negotiatedEncoding := negotiatedEncoding
        decompressor := decompressor }).emit (.headers phase headers)) := by
    refine emit_aside ?_ rfl
    refine ⟨.refl _, rfl, rfl, rfl, fun _ => ?_, fun _ h => .inl h⟩
    unfold headerPhase at hphase
    unfold requestSent
    split at hphase <;> simp_all
  split
  · exact (hhandled _ _).trans (finish_aside _ _)
  · exact push_aside (emit_aside (hhandled _ _) rfl) _ (by simp)
  · exact (hhandled _ _).trans (finish_aside _ _)

/-- Nor do received messages. -/
theorem receiveNext_aside (options : HandlerOptions) (rpc : Rpc) (endStream : Bool)
    (reads : List ReadResult) : Aside rpc (rpc.receiveNext options endStream reads) := by
  have hparsed (parser : GrpcDataParser) : Aside rpc { rpc with grpcDataParser := parser } :=
    ⟨.refl _, rfl, rfl, rfl, id, fun _ h => .inl h⟩
  unfold receiveNext
  dsimp only
  split
  · split
    · exact hparsed _
    · split <;> exact (hparsed _).trans (finish_aside _ _)
  · exact (hparsed _).trans (finish_aside _ _)
  · split
    · exact (hparsed _).trans (finish_aside _ _)
    · unfold messageReceived
      split
      · exact push_aside (emit_aside (push_aside (hparsed _) _ (by simp)) rfl) _ (by simp)
      · exact push_aside (hparsed _) _ (by simp)

/-- Returning from the code on top of the stack. -/
theorem pop_aside {rpc : Rpc} {code : Continuation} {rest : List Continuation}
    (hstack : rpc.stack = code :: rest) : Aside rpc { rpc with stack := rest } :=
  ⟨.refl _, rfl, rfl, rfl, id, fun c hc => .inl (by rw [hstack]; simp [hc])⟩

/-- Where other code is on top, the stream is not deciding about data. -/
theorem Outgoing.clear_of_top {endStreamAtFirstData : Bool} {rpc : Rpc}
    (h : Outgoing endStreamAtFirstData rpc) {code : Continuation} {rest : List Continuation}
    (hstack : rpc.stack = code :: rest) (hcode : code ≠ .sendDATA) : Clear rpc := by
  have htop := h.sendingTop
  rw [hstack] at htop
  rw [Clear, hstack]
  simpa [hcode.symm] using htop

/-- Code that runs on keeps the order. -/
theorem resume_outgoing (options : HandlerOptions) {rpc next : Rpc} (reads : List ReadResult)
    (h : Outgoing options.rpcType.endStreamAtFirstData rpc)
    (hstep : rpc.resume options reads = some next) :
    Outgoing options.rpcType.endStreamAtFirstData next := by
  unfold resume at hstep
  split at hstep
  · rename_i rest hstack
    cases hstep
    refine h.aside (h.clear_of_top hstack (by simp)) ((pop_aside hstack).trans ?_)
    exact ⟨.refl _, rfl, rfl, rfl, id, fun _ h => .inl h⟩
  · rename_i endStream rest hstack
    cases hstep
    exact h.aside (h.clear_of_top hstack (by simp))
      ((pop_aside hstack).trans (receiveNext_aside options _ endStream reads))
  · rename_i draining rest hstack
    have hclear := h.clear_of_top hstack (by simp)
    split at hstep
    · cases hstep
    · rename_i stream hstream
      split at hstep <;> cases hstep
      · rename_i hready
        refine sendNext_outgoing h hclear ?_ (h.headersStack draining (by rw [hstack]; simp))
        simpa [isUploading, hstream] using hready.1
      · refine h.aside hclear ((pop_aside hstack).trans ?_)
        exact ⟨.refl _, rfl, rfl, rfl, id, fun _ h => .inl h⟩
  · rename_i rest hstack
    cases hstep
    refine h.aside (h.clear_of_top hstack (by simp)) ((pop_aside hstack).trans ?_)
    exact ⟨.refl _, rfl, rfl, rfl, id, fun _ h => .inl h⟩
  · rename_i rest hstack
    cases hstep
    have hclear := h.clear_of_top hstack (by simp)
    split
    · exact h.aside hclear ((pop_aside hstack).trans (cancelWithStatus_aside _ _))
    · exact h.aside hclear (pop_aside hstack)
  · rename_i rest hstack
    cases hstep
    have hclear := h.clear_of_top hstack (by simp)
    exact dropStream_outgoing (h.aside hclear (pop_aside hstack)) ((pop_aside hstack).clear hclear)
  · rename_i rest hstack
    cases hstep
    have hclear := h.clear_of_top hstack (by simp)
    exact destroy_outgoing (h.aside hclear (pop_aside hstack)) ((pop_aside hstack).clear hclear)
  · cases hstep

/-- Where no code is left to run, the stream is not deciding about data. -/
theorem clear_of_empty {rpc : Rpc} (hstack : rpc.stack = []) : Clear rpc := by
  simp [Clear, hstack]

/-- A user call, or a signal of the stream, finds no decision of the stream pending. -/
theorem Outgoing.clear_of_head {endStreamAtFirstData : Bool} {rpc : Rpc}
    (h : Outgoing endStreamAtFirstData rpc) {code : Continuation} (hcode : code ≠ .sendDATA)
    (hstack : rpc.stack.isEmpty = true ∨ (rpc.stack.head? == some code) = true) : Clear rpc := by
  rcases hstack with hstack | hstack
  · exact clear_of_empty (by simpa using hstack)
  · cases hrest : rpc.stack with
    | nil => exact clear_of_empty hrest
    | cons top rest =>
      obtain rfl : top = code := by simpa [hrest] using hstack
      exact h.clear_of_top hrest hcode

/-- Where the user may call, the stream is not deciding about data. -/
theorem Outgoing.clear_of_user {endStreamAtFirstData : Bool} {rpc : Rpc}
    (h : Outgoing endStreamAtFirstData rpc) (huser : rpc.userMayCall = true) : Clear rpc := by
  simp only [userMayCall, Bool.and_eq_true, Bool.or_eq_true] at huser
  exact h.clear_of_head (by simp) huser.2

/-- Where the stream may signal, it is not deciding about data. -/
theorem Outgoing.clear_of_stream {endStreamAtFirstData : Bool} {rpc : Rpc}
    (h : Outgoing endStreamAtFirstData rpc) (hstream : rpc.streamMaySignal = true) :
    Clear rpc := by
  simp only [streamMaySignal, Bool.and_eq_true, Bool.or_eq_true] at hstream
  exact h.clear_of_head (by simp) hstream.2

/-- Every step keeps the request in order. -/
theorem step_outgoing (env : Environment) (options : HandlerOptions) (rpc next : Rpc)
    (input : Input) (h : Outgoing options.rpcType.endStreamAtFirstData rpc)
    (hstep : step env options rpc input = some next) :
    Outgoing options.rpcType.endStreamAtFirstData next := by
  cases input <;> simp only [step] at hstep
  case headersReceived headers endStream =>
    split at hstep <;> cases hstep
    rename_i hready
    exact h.aside (clear_of_empty ((atEventLoop_iff rpc).mp hready.1).1)
      (headersReceived_aside env options rpc headers endStream)
  case dataReceived data endStream =>
    split at hstep <;> cases hstep
    rename_i hready
    refine h.aside (clear_of_empty ((atEventLoop_iff rpc).mp hready.1).1) ?_
    unfold dataReceived
    split
    · exact .refl rpc
    · split
      · exact .refl rpc
      · refine push_aside ?_ _ (by simp)
        exact ⟨.refl _, rfl, rfl, rfl, id, fun _ h => .inl h⟩
  case errorOccurred code text =>
    split at hstep
    · cases hstep
    · rename_i stream hstream
      split at hstep
      · cases hstep
      · rename_i hready
        split at hstep <;> cases hstep
        · exact h
        · refine h.aside (h.clear_of_stream (by simpa using hready)) ?_
          refine Aside.trans ?_ (finish_aside _ _)
          exact ⟨.refl _, rfl, by simp [isUploading, hstream], rfl, id, fun _ h => .inl h⟩
  case bytesWritten bytes =>
    split at hstep <;> cases hstep
    rename_i hready
    exact h.aside (h.clear_of_stream hready.1) ⟨.refl _, rfl, rfl, rfl, id, fun _ h => .inl h⟩
  case uploadFinished =>
    split at hstep
    · cases hstep
    · rename_i stream hstream
      split at hstep <;> cases hstep
      rename_i hready
      have hclear := h.clear_of_stream hready.1
      have hbusy : rpc.isUploading = true := by simpa [isUploading, hstream] using hready.2
      have hsent := h.headersUpload hbusy
      set ended := ({ rpc with stream := some { stream with isUploadingDATA := false } }).emit
        .uploadEnded with hended
      have hout : Outgoing options.rpcType.endStreamAtFirstData ended :=
        uploadEnded_outgoing h hclear hbusy rfl rfl rfl rfl rfl rfl
      unfold uploadFinished
      extract_lets scheduled
      have haside : Aside ended scheduled := by
        unfold scheduled
        split <;> exact ⟨.refl _, rfl, rfl, rfl, id, fun _ h => .inl h⟩
      split
      · exact hout.aside hclear haside
      · refine processQueue_outgoing (hout.aside hclear haside) (haside.clear hclear) fun _ => ?_
        rw [haside.trace.headersSent, hended]
        simpa [emit] using hsent
  case uploadDropped =>
    split at hstep
    · cases hstep
    · rename_i stream hstream
      split at hstep <;> cases hstep
      rename_i hready
      exact uploadEnded_outgoing h (h.clear_of_stream hready.1)
        (by simpa [isUploading, hstream] using hready.2) rfl rfl rfl rfl rfl rfl
  case streamStateChanged state =>
    obtain ⟨stream, hstream, rfl⟩ := Option.map_eq_some_iff.mp hstep
    have hupload : ({ rpc with stream := some { stream with state := state } } : Rpc).isUploading =
        rpc.isUploading := by
      simp [isUploading, hstream]
    exact
      { h with
        uploads := by rw [hupload]; exact h.uploads
        headersUpload := by rw [hupload]; exact h.headersUpload
        sendingIdle := by rw [hupload]; exact h.sendingIdle }
  case sendDATAAccepted =>
    split at hstep <;> cases hstep
    rename_i rest stream hstack hstream
    have hmem : Continuation.sendDATA ∈ rpc.stack := by simp [hstack]
    have hidle := h.sendingIdle hmem
    have hsent := h.headersSending hmem
    have htail := h.sendingTop
    rw [hstack] at htail
    refine carriage_outgoing h .uploadStarted rfl ⟨rfl, rfl⟩ rfl rfl ?_ ?_ ?_ ?_ ?_
    · refine (outstanding_concat rpc.trace .uploadStarted).trans ?_
      rw [h.uploads, hidle]
      simp [isUploading, emit]
    · exact fun _ => by simpa [emit] using hsent
    · exact fun _ => by simpa [emit] using hsent
    · exact fun _ _ => by simpa [emit] using hsent
    · simpa [emit] using htail
  case sendDATARefused =>
    split at hstep <;> cases hstep
    rename_i draining rest hstack
    have htail := h.sendingTop
    rw [hstack] at htail
    have hrest : Continuation.sendDATA ∉ rest := by simpa using htail
    exact
      { h with
        headersStack := fun d hd => h.headersStack d (by rw [hstack]; simp [hd])
        headersSending := fun hmem => absurd hmem hrest
        sendingTop := fun hmem => hrest (List.mem_of_mem_tail hmem)
        sendingIdle := fun hmem => absurd hmem hrest }
  case sendDATAReturned =>
    split at hstep <;> cases hstep
    rename_i rest hstack
    exact h.aside (h.clear_of_top hstack (by simp)) (pop_aside hstack)
  case attachStream =>
    split at hstep <;> cases hstep
    rename_i hready
    obtain ⟨hloop, -, hnone, hstate⟩ := hready
    have hstack := ((atEventLoop_iff rpc).mp hloop).1
    have hidle : rpc.isUploading = false := by
      simp [isUploading, Option.isNone_iff_eq_none.mp hnone]
    refine carriage_outgoing h .attachStream rfl ⟨rfl, rfl⟩ rfl rfl ?_ ?_ ?_ ?_ ?_
    · refine (outstanding_concat rpc.trace .attachStream).trans ?_
      rw [h.uploads, hidle]
      simp [isUploading, emit]
    · intro hs
      have : rpc.state = .requestHeadersSent ∨ rpc.state = .active := hs
      rcases this with hs | hs <;> simp [hs, State.ended] at hstate
    all_goals simp [emit, hstack, isUploading]
  case createStreamFailed error =>
    split at hstep <;> cases hstep
    rename_i hready
    exact h.aside (clear_of_empty ((atEventLoop_iff rpc).mp hready.1).1) (asyncFinish_aside rpc _)
  case sendInitialRequest sendHEADERS =>
    split at hstep <;> cases hstep
    rename_i hready
    have hstack := ((atEventLoop_iff rpc).mp hready.1).1
    exact sendInitialRequest_outgoing options sendHEADERS h (clear_of_empty hstack) hstack
  case socketError errorCode =>
    split at hstep
    · cases hstep
    · rename_i hready
      have hclear := clear_of_empty ((atEventLoop_iff rpc).mp (by simpa using hready)).1
      split at hstep <;> cases hstep
      · exact destroy_outgoing h hclear
      · exact h.aside hclear ((push_aside (.refl rpc) _ (by simp)).trans (finish_aside _ _))
  case connectionDeleted =>
    split at hstep <;> cases hstep
    rename_i hready
    exact dropStream_outgoing h (clear_of_empty ((atEventLoop_iff rpc).mp hready).1)
  case channelDestroyed =>
    split at hstep
    · cases hstep
    · rename_i hready
      have hclear : Clear rpc := clear_of_empty (by simpa using hready)
      have hreleased : Aside rpc { rpc with channelAlive := false } :=
        ⟨.refl _, rfl, rfl, rfl, id, fun _ h => .inl h⟩
      split at hstep <;> cases hstep
      · exact h.aside hclear ((push_aside hreleased _ (by simp)).trans (finish_aside _ _))
      · exact destroy_outgoing (h.aside hclear hreleased) hclear
  case writeMessage data compressed =>
    split at hstep <;> cases hstep
    rename_i hready
    split
    · exact writeMessage_outgoing options data compressed h (h.clear_of_user hready.1)
        fun hfirst => absurd hfirst hready.2
    · exact h
  case writeUnserializable messageTooLarge lastErrorString =>
    split at hstep <;> cases hstep
    rename_i hready
    split
    · exact h.aside (h.clear_of_user hready.1) (contextFinished_aside rpc _ _ (by simp))
    · exact h
  case writesDone =>
    split at hstep <;> cases hstep
    rename_i hready
    split
    · exact writesDone_outgoing options h (h.clear_of_user hready.1) (by simpa using hready.2)
    · exact h
  case cancel =>
    split at hstep <;> cases hstep
    rename_i huser
    unfold cancel
    split
    · exact h
    · exact h.aside (h.clear_of_user huser) (cancelWithStatus_aside rpc _)
  case slotReturned =>
    split at hstep <;> cases hstep
    rename_i rest hstack
    exact h.aside (h.clear_of_top hstack (by simp)) (pop_aside hstack)
  case resume reads => exact resume_outgoing options reads h hstep
  case deadlineTimeout =>
    split at hstep <;> cases hstep
    rename_i hready
    refine h.aside (clear_of_empty ((atEventLoop_iff rpc).mp hready.1).1) ?_
    refine Aside.trans ?_ (cancelWithStatus_aside _ _)
    exact ⟨.refl _, rfl, rfl, rfl, id, fun _ h => .inl h⟩
  case callback callback =>
    split at hstep
    · cases hstep
    rename_i hready
    have hclear : Clear rpc := clear_of_empty (by simp_all)
    have htaken : Aside rpc { rpc with pending := rpc.pending.erase callback } :=
      ⟨.refl _, rfl, rfl, rfl, id, fun _ h => .inl h⟩
    cases callback with
    | messageWritten =>
      simp only at hstep
      split at hstep
      · cases hstep
      · split at hstep <;> cases hstep
        · exact h.aside hclear (push_aside (emit_aside htaken rfl) _ (by simp))
        · exact h.aside hclear htaken
    | asyncFinish status =>
      simp only at hstep
      split at hstep <;> cases hstep
      exact h.aside hclear (htaken.trans (finish_aside _ status))
    | contextFinished status =>
      simp only at hstep
      split at hstep <;> cases hstep
      exact h.aside hclear (htaken.trans (contextFinished_aside _ status [] (by simp)))
  case deferredDelete =>
    split at hstep <;> cases hstep
    rename_i hready
    exact destroy_outgoing h (clear_of_empty ((atEventLoop_iff rpc).mp hready.1).1)
  case contextDestroyed =>
    split at hstep <;> cases hstep
    rename_i hready
    exact h.aside (clear_of_empty (by simpa using hready.1))
      ⟨.refl _, rfl, rfl, rfl, id, fun _ h => .inl h⟩

/-- A new handler has nothing out of order. -/
theorem fresh_outgoing (options : HandlerOptions) (endStreamAtFirstData : Bool) :
    Outgoing endStreamAtFirstData (fresh options) := by
  constructor <;> simp [fresh, accepted, handed, outstanding, isUploading, requestSent]
  constructor <;> simp [accepted, handed, outstanding]

/-- Nor has one at the start of its call. -/
theorem starts_outgoing (options : HandlerOptions) (start : Rpc)
    (hstart : Starts options start) : Outgoing options.rpcType.endStreamAtFirstData start := by
  cases hstart with
  | constructed data compressed =>
    exact writeMessage_outgoing options data compressed (fresh_outgoing options _)
      (clear_of_empty rfl) fun _ => rfl
  | turnedDown status h =>
    exact (fresh_outgoing options _).aside (clear_of_empty rfl)
      ⟨.refl _, rfl, rfl, rfl, id, fun _ h => .inl h⟩

end Rpc

/-! ## The entries are the framed messages -/

namespace Rpc

/-- The conditions under which a message or the closing marker joins the queue. -/
def takes (rpc : Rpc) (data : Bytes) : Prop :=
  ¬ (rpc.writesDoneSent ∨ rpc.state.ended ∨ rpc.isStreamClosedForSending) ∧
    data.length ≤ GrpcMaxPayloadSize

instance (rpc : Rpc) (data : Bytes) : Decidable (rpc.takes data) :=
  inferInstanceAs (Decidable (_ ∧ _))

/-- What a call adds to the queue: its message framed, or the closing marker. -/
def enqueued (options : HandlerOptions) (rpc : Rpc) : Input → List Bytes
  | .writeMessage data compressed =>
    if (rpc.channelAlive ∧ rpc.alive) ∧ rpc.takes data then
      [frameOutgoing options.requestEncoding data compressed]
    else []
  | .writesDone => if (rpc.channelAlive ∧ rpc.alive) ∧ rpc.takes [] then [[]] else []
  | _ => []

end Rpc

end QtGrpc.Http2
