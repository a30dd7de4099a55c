import Mathlib.Data.List.Nodup
import QtGrpc.Http2.Finish
import QtGrpc.Http2.Outgoing

/-!
# The accounts of outgoing bytes

Two counters follow the queue: one holds what still waits, the other also what the stream has
taken and not yet reported. Every step keeps them exact, and the flag of the upload in flight
makes each finished upload of a message schedule one `messageWritten`.
-/

namespace QtGrpc.Http2

/-- The bytes of a queue. -/
def queueSize (queue : List Bytes) : Nat := (queue.map List.length).sum

/-- The bytes accepted so far. -/
def acceptedBytes (trace : List Event) : Nat := queueSize (accepted trace)

/-- The bytes handed to the stream so far. -/
def handedBytes (trace : List Event) : Nat := queueSize (handed trace)

/-- Whether the data handed over last close the request. -/
def closingHanded (trace : List Event) : Bool :=
  trace.foldl (fun closing e =>
    match e with
    | .sendDATA _ endStream => endStream
    | _ => closing) false

/-- What an observer of a run writes down: the bytes reported written, the messages whose upload
finished, and the messages `messageWritten` was scheduled for, in the order they were handed over. -/
structure Account where
  reported : Nat := 0
  uploaded : List Nat := []
  scheduled : List Nat := []
deriving Repr

/-- The entry of the account for one step. -/
def Account.record (account : Account) (rpc : Rpc) (input : Input) (next : Rpc) : Account where
  reported :=
    match input with
    | .bytesWritten bytes => account.reported + bytes.toNat
    | _ => account.reported
  uploaded :=
    match input with
    | .uploadFinished =>
      if closingHanded rpc.trace then account.uploaded
      else account.uploaded ++ [(handed rpc.trace).length - 1]
    | _ => account.uploaded
  scheduled :=
    account.scheduled ++ List.replicate
      (next.pending.count .messageWritten - rpc.pending.count .messageWritten)
      ((handed rpc.trace).length - 1)

/-- The stream reports no more than it was given. -/
def ReportsOnce (observed : Rpc × Account) (input : Input) : Prop :=
  ∀ bytes, input = .bytesWritten bytes →
    observed.2.reported + bytes.toNat ≤ handedBytes observed.1.trace

instance (observed : Rpc × Account) : ∀ input, Decidable (ReportsOnce observed input)
  | .bytesWritten bytes =>
    decidable_of_iff (observed.2.reported + bytes.toNat ≤ handedBytes observed.1.trace)
      ⟨fun h _ hinput => by cases hinput; exact h, fun h => h bytes rfl⟩
  | .headersReceived _ _ | .dataReceived _ _ | .errorOccurred _ _ | .uploadFinished
  | .uploadDropped | .streamStateChanged _ | .sendDATAAccepted | .sendDATARefused
  | .sendDATAReturned | .attachStream | .createStreamFailed _ | .sendInitialRequest _
  | .socketError _ | .connectionDeleted | .channelDestroyed | .writeMessage _ _
  | .writeUnserializable _ _ | .writesDone | .cancel | .slotReturned | .resume _
  | .deadlineTimeout | .callback _ | .deferredDelete | .contextDestroyed =>
    isTrue fun _ hinput => by cases hinput

/-- The bytes held by the queue and by the stream. -/
def heldBytes (rpc : Rpc) (account : Account) : Nat :=
  queueSize rpc.queue + (handedBytes rpc.trace - account.reported)

/-- What the handler holds fits an address space of 64 bits. -/
def InMemory (rpc : Rpc) (account : Account) : Prop := heldBytes rpc account < 2 ^ 64

/-- The counters and the account agree with the queue and the stream. -/
structure WritesAccounted (rpc : Rpc) (account : Account) : Prop where
  queued : rpc.queuedBytes = UInt64.ofNat (queueSize rpc.queue)
  unreported : rpc.bytesToWrite - rpc.queuedBytes =
    UInt64.ofNat (handedBytes rpc.trace - account.reported)
  exact : InMemory rpc account → rpc.queuedBytes.toNat = queueSize rpc.queue ∧
    rpc.bytesToWrite.toNat = rpc.queuedBytes.toNat + (handedBytes rpc.trace - account.reported)
  scheduled : account.scheduled = account.uploaded
  once : account.uploaded.Nodup

/-- The assertions on the way of one step: a report takes no more than `bytesToWrite` holds, and a
dequeued entry no more than `queuedBytes` holds once the step has enqueued its own message. -/
structure AssertionsHold (rpc : Rpc) (input : Input) (next : Rpc) : Prop where
  bytesWritten : ∀ bytes, input = .bytesWritten bytes → bytes ≤ rpc.bytesToWrite
  dequeued : UInt64.ofNat (handedBytes next.trace - handedBytes rpc.trace) ≤
    rpc.queuedBytes + UInt64.ofNat (acceptedBytes next.trace - acceptedBytes rpc.trace)

namespace Rpc

/-- The stream decides about data handed over, or carries them. -/
def Carrying (rpc : Rpc) : Prop := .sendDATA ∈ rpc.stack ∨ rpc.isUploading = true

/-- The relation of the counters, the queue and the account that every step keeps. -/
structure Counted (rpc : Rpc) (account : Account) : Prop where
  queued : rpc.queuedBytes = UInt64.ofNat (queueSize rpc.queue)
  toWrite : rpc.bytesToWrite = UInt64.ofNat (heldBytes rpc account)
  reported : account.reported ≤ handedBytes rpc.trace
  earlier : ∀ i ∈ account.uploaded, i < (handed rpc.trace).length
  carried : rpc.Carrying → 0 < (handed rpc.trace).length ∧
    (∀ i ∈ account.uploaded, i + 1 < (handed rpc.trace).length) ∧
    rpc.inFlightUserWrite = !closingHanded rpc.trace
  scheduled : account.scheduled = account.uploaded
  once : account.uploaded.Nodup

/-- A step that neither hands data over nor touches the counters. -/
structure Apart (rpc next : Rpc) : Prop where
  queue : queueSize next.queue = queueSize rpc.queue
  queuedBytes : next.queuedBytes = rpc.queuedBytes
  bytesToWrite : next.bytesToWrite = rpc.bytesToWrite
  handed : handed next.trace = handed rpc.trace
  closing : closingHanded next.trace = closingHanded rpc.trace
  inFlight : next.inFlightUserWrite = rpc.inFlightUserWrite
  carrying : next.Carrying → rpc.Carrying
  scheduled : next.pending.count .messageWritten ≤ rpc.pending.count .messageWritten

end Rpc

/-- A message adds its length. -/
@[simp] theorem queueSize_concat (queue : List Bytes) (m : Bytes) :
    queueSize (queue ++ [m]) = queueSize queue + m.length := by
  simp [queueSize]

/-- The bytes of two queues add up. -/
@[simp] theorem queueSize_append (first second : List Bytes) :
    queueSize (first ++ second) = queueSize first + queueSize second := by
  simp [queueSize]

/-- The first message adds its length too. -/
@[simp] theorem queueSize_cons (m : Bytes) (queue : List Bytes) :
    queueSize (m :: queue) = m.length + queueSize queue := by
  simp [queueSize]

/-- An empty queue has no bytes. -/
@[simp] theorem queueSize_nil : queueSize [] = 0 := rfl

/-- Only data handed over change what was handed over last. -/
@[simp] theorem closingHanded_concat (trace : List Event) (e : Event) :
    closingHanded (trace ++ [e]) =
      match e with
      | .sendDATA _ endStream => endStream
      | _ => closingHanded trace := by
  simp [closingHanded]

namespace Rpc

/-- Nothing happens. -/
theorem Apart.refl (rpc : Rpc) : Apart rpc rpc := ⟨rfl, rfl, rfl, rfl, rfl, rfl, id, le_rfl⟩

/-- Two steps that leave the counters alone are one. -/
theorem Apart.trans {a b c : Rpc} (hab : Apart a b) (hbc : Apart b c) : Apart a c where
  queue := hbc.queue.trans hab.queue
  queuedBytes := hbc.queuedBytes.trans hab.queuedBytes
  bytesToWrite := hbc.bytesToWrite.trans hab.bytesToWrite
  handed := hbc.handed.trans hab.handed
  closing := hbc.closing.trans hab.closing
  inFlight := hbc.inFlight.trans hab.inFlight
  carrying h := hab.carrying (hbc.carrying h)
  scheduled := hbc.scheduled.trans hab.scheduled

/-- An event that hands nothing over leaves the counters alone. -/
theorem Apart.emit {rpc next : Rpc} (h : Apart rpc next) {e : Event} (hhanded : Http2.handed [e] = []) :
    Apart rpc (next.emit e) where
  queue := h.queue
  queuedBytes := h.queuedBytes
  bytesToWrite := h.bytesToWrite
  handed := by rw [← h.handed, Rpc.emit, handed_concat, hhanded, List.append_nil]
  closing := by
    rw [← h.closing, Rpc.emit, closingHanded_concat]
    cases e <;> first | rfl | simp [Http2.handed] at hhanded
  inFlight := h.inFlight
  carrying := h.carrying
  scheduled := h.scheduled

/-- Code that is yet to run leaves the counters alone, unless the stream is to decide. -/
theorem Apart.push {rpc next : Rpc} (h : Apart rpc next) {code : List Continuation}
    (hcode : .sendDATA ∉ code) : Apart rpc (next.push code) where
  __ := h
  carrying hcarrying := by
    apply h.carrying
    rcases hcarrying with hmem | hbusy
    · exact .inl ((List.mem_append.mp hmem).resolve_left hcode)
    · exact .inr hbusy

/-- Returning from code leaves the counters alone. -/
theorem Apart.pop {rpc : Rpc} {code : Continuation} {rest : List Continuation}
    (hstack : rpc.stack = code :: rest) : Apart rpc { rpc with stack := rest } where
  __ := Apart.refl rpc
  carrying hcarrying := by
    rcases hcarrying with hmem | hbusy
    · exact .inl (by rw [hstack]; exact List.mem_cons_of_mem code hmem)
    · exact .inr hbusy

/-- The end of an operation leaves the counters alone. -/
theorem contextFinished_apart (rpc : Rpc) (status : QGrpcStatus) (after : List Continuation)
    (hafter : .sendDATA ∉ after) : Apart rpc (rpc.contextFinished status after) := by
  unfold contextFinished
  split
  · exact (Apart.refl rpc).push hafter
  · refine Apart.push (Apart.emit ?_ rfl) (by simpa using hafter)
    exact ⟨rfl, rfl, rfl, rfl, rfl, rfl, id, le_rfl⟩

/-- Finishing leaves the counters alone. -/
theorem finish_apart (rpc : Rpc) (status : QGrpcStatus) : Apart rpc (rpc.finish status) := by
  unfold finish
  split
  · exact ⟨rfl, rfl, rfl, rfl, rfl, rfl, id, le_rfl⟩
  · split
    · exact .refl rpc
    · refine Apart.trans ?_ (contextFinished_apart _ status _ (by simp))
      exact ⟨rfl, rfl, rfl, rfl, rfl, rfl, id, le_rfl⟩

/-- So does finishing later. -/
theorem asyncFinish_apart (rpc : Rpc) (status : QGrpcStatus) :
    Apart rpc (rpc.asyncFinish status) := by
  unfold asyncFinish
  split
  · exact ⟨rfl, rfl, rfl, rfl, rfl, rfl, id, le_rfl⟩
  · exact ⟨rfl, rfl, rfl, rfl, rfl, rfl, id, by simp⟩

/-- So does cancelling. -/
theorem cancelWithStatus_apart (rpc : Rpc) (status : QGrpcStatus) :
    Apart rpc (rpc.cancelWithStatus status) := by
  unfold cancelWithStatus
  split
  · exact .refl rpc
  · have hcancelled : Apart rpc { rpc with state := .cancelled } :=
      ⟨rfl, rfl, rfl, rfl, rfl, rfl, id, le_rfl⟩
    dsimp only
    split
    · split
      · exact hcancelled.trans (finish_apart _ status)
      · exact (hcancelled.emit rfl).trans (finish_apart _ status)
    · exact hcancelled.trans (finish_apart _ status)

/-- A stream that carries nothing leaves nothing to report. -/
theorem idle_apart (rpc : Rpc) (stream : Option Http2Stream)
    (hidle : ({ rpc with stream := stream } : Rpc).isUploading = false) :
    Apart rpc { rpc with stream := stream } where
  __ := Apart.refl rpc
  carrying hcarrying := by
    rcases hcarrying with hmem | hbusy
    · exact .inl hmem
    · rw [hidle] at hbusy
      cases hbusy

/-- So does the loss of the stream. -/
theorem dropStream_apart (rpc : Rpc) : Apart rpc rpc.dropStream := by
  have hidle := idle_apart rpc none rfl
  unfold dropStream
  split
  · split
    · exact hidle.emit rfl
    · exact hidle
  · exact .refl rpc

/-- So does the end of the operation object. -/
theorem destroy_apart (rpc : Rpc) : Apart rpc rpc.destroy := by
  refine Apart.trans ?_ (dropStream_apart _)
  exact ⟨rfl, rfl, rfl, rfl, rfl, rfl, id, le_rfl⟩

/-- So do received headers. -/
theorem headersReceived_apart (env : Environment) (options : HandlerOptions) (rpc : Rpc)
    (headers : HttpHeader) (endStream : Bool) :
    Apart rpc (rpc.headersReceived env options headers endStream) := by
  unfold headersReceived
  split
  · exact ⟨rfl, rfl, rfl, rfl, rfl, rfl, id, le_rfl⟩
  split
  · exact .refl rpc
  rename_i phase _
  dsimp only
  split
  · exact ⟨rfl, rfl, rfl, rfl, rfl, rfl, id, le_rfl⟩
  have hhandled (negotiatedEncoding : Bytes) (decompressor : Bool) :
      Apart rpc (({ rpc with
        state := .active
        negotiatedEncoding := negotiatedEncoding
        decompressor := decompressor }).emit (.headers phase headers)) := by
    refine Apart.emit ?_ rfl
    exact ⟨rfl, rfl, rfl, rfl, rfl, rfl, id, le_rfl⟩
  split
  · exact (hhandled _ _).trans (finish_apart _ _)
  · exact ((hhandled _ _).emit rfl).push (by simp)
  · exact (hhandled _ _).trans (finish_apart _ _)

/-- So do received messages. -/
theorem receiveNext_apart (options : HandlerOptions) (rpc : Rpc) (endStream : Bool)
    (reads : List ReadResult) : Apart rpc (rpc.receiveNext options endStream reads) := by
  have hparsed (parser : GrpcDataParser) : Apart rpc { rpc with grpcDataParser := parser } :=
    ⟨rfl, rfl, rfl, rfl, rfl, rfl, id, le_rfl⟩
  unfold receiveNext
  dsimp only
  split
  · split
    · exact hparsed _
    · split <;> exact (hparsed _).trans (finish_apart _ _)
  · exact (hparsed _).trans (finish_apart _ _)
  · split
    · exact (hparsed _).trans (finish_apart _ _)
    · unfold messageReceived
      split
      · exact (((hparsed _).push (by simp)).emit rfl).push (by simp)
      · exact (hparsed _).push (by simp)

/-- Steps apart from the request keep the counters exact. -/
theorem Counted.apart {rpc next : Rpc} {account : Account} (h : Counted rpc account)
    (hapart : Apart rpc next) : Counted next account where
  queued := by rw [hapart.queuedBytes, hapart.queue, h.queued]
  toWrite := by
    rw [hapart.bytesToWrite, h.toWrite, heldBytes, heldBytes, hapart.queue, handedBytes,
      handedBytes, hapart.handed]
  reported := by
    rw [handedBytes, hapart.handed]
    exact h.reported
  earlier := by
    rw [hapart.handed]
    exact h.earlier
  carried hcarrying := by
    rw [hapart.handed, hapart.inFlight, hapart.closing]
    exact h.carried (hapart.carrying hcarrying)
  scheduled := h.scheduled
  once := h.once

/-- Handing the next entry over moves its bytes from the queue to the stream. -/
theorem sendNext_counted {rpc : Rpc} {account : Account} (endStreamAtFirstData : Bool)
    (h : Counted rpc account) : Counted (rpc.sendNext endStreamAtFirstData) account := by
  unfold sendNext
  split
  · exact h
  rename_i m queue hqueue
  have hhanded : handed (rpc.trace ++ [.sendDATA m (m.isEmpty || endStreamAtFirstData)]) =
      handed rpc.trace ++ [m] := handed_concat _ _
  have hbytes : handedBytes (rpc.trace ++ [.sendDATA m (m.isEmpty || endStreamAtFirstData)]) =
      handedBytes rpc.trace + m.length := by
    rw [handedBytes, hhanded, queueSize_concat, handedBytes]
  have hsize : queueSize rpc.queue = m.length + queueSize queue := by rw [hqueue, queueSize_cons]
  have hreported := h.reported
  refine
    { queued := ?_
      toWrite := ?_
      reported := ?_
      earlier := fun i hi => ?_
      carried := fun _ => ⟨?_, fun i hi => ?_, ?_⟩
      scheduled := h.scheduled
      once := h.once }
  · change rpc.queuedBytes - UInt64.ofNat m.length = UInt64.ofNat (queueSize queue)
    rw [h.queued, hsize, UInt64.ofNat_add]
    grind
  · change rpc.bytesToWrite = UInt64.ofNat (queueSize queue + _)
    rw [h.toWrite, heldBytes, hsize]
    congr 1
    change _ = queueSize queue + (handedBytes (rpc.trace ++ _) - account.reported)
    omega
  · change account.reported ≤ handedBytes (rpc.trace ++ _)
    omega
  · change i < (handed (rpc.trace ++ _)).length
    have := h.earlier i hi
    rw [hhanded, List.length_append]
    omega
  · change 0 < (handed (rpc.trace ++ _)).length
    rw [hhanded]
    simp
  · change i + 1 < (handed (rpc.trace ++ _)).length
    have := h.earlier i hi
    rw [hhanded, List.length_append, List.length_singleton]
    omega
  · simp [Rpc.emit, Rpc.push]

/-- The work on the queue keeps the counters exact. -/
theorem processQueue_counted {rpc : Rpc} {account : Account} (endStreamAtFirstData : Bool)
    (h : Counted rpc account) : Counted (rpc.processQueue endStreamAtFirstData) account := by
  unfold processQueue
  split
  · exact h
  · split
    · exact h
    · split
      · exact h
      · split
        · exact h
        · apply sendNext_counted
          refine (h.apart ?_).apart (Apart.push (.refl _) (by simp))
          exact ⟨rfl, rfl, rfl, rfl, rfl, rfl, id, le_rfl⟩

/-- Accepting a message adds its bytes to both counters. -/
theorem writeMessage_counted {rpc : Rpc} {account : Account} (options : HandlerOptions)
    (data : Bytes) (compressed : Option Bytes) (h : Counted rpc account) :
    Counted (rpc.writeMessage options data compressed) account := by
  unfold writeMessage
  split
  · exact h
  split
  · exact h.apart (finish_apart rpc _)
  extract_lets msg
  apply processQueue_counted
  have hhanded : handed (rpc.trace ++ [.writeMessage msg]) = handed rpc.trace := by simp [handed]
  have hbytes : handedBytes (rpc.trace ++ [.writeMessage msg]) = handedBytes rpc.trace := by
    rw [handedBytes, hhanded, handedBytes]
  exact
    { queued := by
        change rpc.queuedBytes + UInt64.ofNat msg.length = UInt64.ofNat (queueSize (rpc.queue ++ [msg]))
        rw [h.queued, queueSize_concat, UInt64.ofNat_add]
      toWrite := by
        change rpc.bytesToWrite + UInt64.ofNat msg.length =
          UInt64.ofNat (queueSize (rpc.queue ++ [msg]) + (handedBytes (rpc.trace ++ _) - _))
        rw [h.toWrite, heldBytes, queueSize_concat, hbytes, ← UInt64.ofNat_add]
        congr 1
        omega
      reported := by
        change account.reported ≤ handedBytes (rpc.trace ++ _)
        rw [hbytes]
        exact h.reported
      earlier := by
        change ∀ i ∈ account.uploaded, i < (handed (rpc.trace ++ _)).length
        rw [hhanded]
        exact h.earlier
      carried := fun hcarrying => by
        have hcarried := h.carried hcarrying
        change 0 < (handed (rpc.trace ++ _)).length ∧
          (∀ i ∈ account.uploaded, i + 1 < (handed (rpc.trace ++ _)).length) ∧
          rpc.inFlightUserWrite = !closingHanded (rpc.trace ++ _)
        rw [hhanded, closingHanded_concat]
        exact hcarried
      scheduled := h.scheduled
      once := h.once }

/-- The closing marker is empty, so both counters stay. -/
theorem writesDone_counted {rpc : Rpc} {account : Account} (options : HandlerOptions)
    (h : Counted rpc account) : Counted (rpc.writesDone options) account := by
  unfold writesDone
  split
  · exact h
  dsimp only
  split
  · exact h.apart ⟨rfl, rfl, rfl, rfl, rfl, rfl, id, le_rfl⟩
  · apply processQueue_counted
    refine h.apart (Apart.emit ?_ rfl)
    exact ⟨by simp, rfl, rfl, rfl, rfl, rfl, id, le_rfl⟩

/-- Sending the request keeps the counters exact. -/
theorem sendInitialRequest_counted {rpc : Rpc} {account : Account} (options : HandlerOptions)
    (sendHEADERS : Bool) (h : Counted rpc account) :
    Counted (rpc.sendInitialRequest options sendHEADERS) account := by
  unfold sendInitialRequest
  split
  · exact h
  split
  · exact h.apart (asyncFinish_apart rpc _)
  · apply processQueue_counted
    refine h.apart (Apart.push (Apart.emit ?_ rfl) (by simp))
    exact ⟨rfl, rfl, rfl, rfl, rfl, rfl, id, le_rfl⟩

/-- The end of an upload schedules `messageWritten` if the user wrote what was uploaded. -/
theorem uploadFinished_pending (options : HandlerOptions) (rpc : Rpc) :
    (rpc.uploadFinished options).pending =
      if rpc.inFlightUserWrite then rpc.pending ++ [.messageWritten] else rpc.pending := by
  unfold uploadFinished
  extract_lets scheduled
  have hscheduled : scheduled.pending =
      if rpc.inFlightUserWrite then rpc.pending ++ [.messageWritten] else rpc.pending := by
    unfold scheduled
    split <;> rfl
  split
  · exact hscheduled
  · rw [(processQueue_sameEnd _ scheduled).2.2.2.2.1, hscheduled]

/-- The upload of the entry handed over last is new to the account. -/
theorem Counted.upload {rpc ended : Rpc} {account : Account} (h : Counted rpc account)
    (hcarrying : rpc.Carrying) (hended : Apart rpc ended) (hidle : ¬ ended.Carrying) :
    Counted ended
      { account with
        uploaded := account.uploaded ++ [(handed rpc.trace).length - 1]
        scheduled := account.scheduled ++ [(handed rpc.trace).length - 1] } := by
  obtain ⟨hsome, hearlier, -⟩ := h.carried hcarrying
  have hkept := h.apart hended
  exact
    { hkept with
      earlier := fun i hi => by
        rw [hended.handed]
        rcases List.mem_append.mp hi with hi | hi
        · exact h.earlier i hi
        · rw [List.mem_singleton.mp hi]
          omega
      carried := fun hcarrying => absurd hcarrying hidle
      scheduled := by rw [h.scheduled]
      once := by
        rw [List.nodup_append]
        refine ⟨h.once, List.nodup_singleton _, fun i hi last hlast => ?_⟩
        have := hearlier i hi
        rw [List.mem_singleton.mp hlast]
        omega }

/-- A finished upload is entered once, and `messageWritten` is scheduled for it if it carried a
message that does not close the request. -/
theorem uploadFinished_counted {rpc ended : Rpc} {account : Account} (options : HandlerOptions)
    (h : Counted rpc account) (hcarrying : rpc.Carrying) (hended : Apart rpc ended)
    (hpending : ended.pending = rpc.pending) (hidle : ¬ ended.Carrying) :
    Counted (ended.uploadFinished options)
      (account.record rpc .uploadFinished (ended.uploadFinished options)) := by
  have hflight := (h.carried hcarrying).2.2
  rw [← hended.inFlight] at hflight
  have hcount : (ended.uploadFinished options).pending.count .messageWritten =
      rpc.pending.count .messageWritten + if ended.inFlightUserWrite then 1 else 0 := by
    rw [uploadFinished_pending, hpending]
    split <;> simp
  have hrecord : account.record rpc .uploadFinished (ended.uploadFinished options) =
      if closingHanded rpc.trace then account
      else { account with
        uploaded := account.uploaded ++ [(handed rpc.trace).length - 1]
        scheduled := account.scheduled ++ [(handed rpc.trace).length - 1] } := by
    rw [Account.record, hcount, hflight]
    cases closingHanded rpc.trace <;> simp
  rw [hrecord]
  unfold uploadFinished
  extract_lets scheduled
  have hscheduled : Counted scheduled (if closingHanded rpc.trace then account
      else { account with
        uploaded := account.uploaded ++ [(handed rpc.trace).length - 1]
        scheduled := account.scheduled ++ [(handed rpc.trace).length - 1] }) := by
    unfold scheduled
    rw [hflight]
    cases closingHanded rpc.trace with
    | true => simpa using h.apart hended
    | false =>
      have hupload := h.upload hcarrying hended hidle
      simp only [Bool.not_false, if_true, Bool.false_eq_true, if_false]
      exact { hupload with carried := fun hcarrying => absurd hcarrying hidle }
  split
  · exact hscheduled
  · exact processQueue_counted _ hscheduled

/-- A report takes from `bytesToWrite` what the account adds. -/
theorem bytesWritten_counted {rpc : Rpc} {account : Account} {bytes : UInt64}
    (h : Counted rpc account)
    (honce : account.reported + bytes.toNat ≤ handedBytes rpc.trace) :
    Counted { rpc with bytesToWrite := rpc.bytesToWrite - bytes }
      { account with reported := account.reported + bytes.toNat } where
  queued := h.queued
  toWrite := by
    have hheld : heldBytes rpc account =
        queueSize rpc.queue + (handedBytes rpc.trace - (account.reported + bytes.toNat)) +
          bytes.toNat := by
      rw [heldBytes]
      omega
    have hbytes : UInt64.ofNat bytes.toNat = bytes := UInt64.ofNat_toNat
    change rpc.bytesToWrite - bytes = UInt64.ofNat (queueSize rpc.queue + _)
    rw [h.toWrite, hheld, UInt64.ofNat_add, hbytes]
    grind
  reported := honce
  earlier := h.earlier
  carried := h.carried
  scheduled := h.scheduled
  once := h.once

/-- Where no callback is scheduled and the stream signals nothing, the account stays. -/
theorem record_of_apart {account : Account} {rpc next : Rpc} {input : Input}
    (hbytes : ∀ bytes, input ≠ .bytesWritten bytes) (hupload : input ≠ .uploadFinished)
    (hpending : next.pending.count .messageWritten ≤ rpc.pending.count .messageWritten) :
    account.record rpc input next = account := by
  unfold Account.record
  rw [Nat.sub_eq_zero_of_le hpending, List.replicate_zero, List.append_nil]
  cases input <;> first | rfl | exact absurd rfl hupload | exact absurd rfl (hbytes _)

/-- The calls that enqueue schedule nothing themselves. -/
theorem processQueue_scheduled (endStreamAtFirstData : Bool) (rpc : Rpc) :
    (rpc.processQueue endStreamAtFirstData).pending = rpc.pending :=
  (processQueue_sameEnd endStreamAtFirstData rpc).2.2.2.2.1

/-- Writing a message schedules no `messageWritten`. -/
theorem writeMessage_scheduled (options : HandlerOptions) (rpc : Rpc) (data : Bytes)
    (compressed : Option Bytes) :
    (rpc.writeMessage options data compressed).pending.count .messageWritten ≤
      rpc.pending.count .messageWritten := by
  unfold writeMessage
  split
  · exact le_rfl
  split
  · exact (finish_apart rpc _).scheduled
  · rw [processQueue_scheduled]
    rfl

/-- Nor does closing the request. -/
theorem writesDone_scheduled (options : HandlerOptions) (rpc : Rpc) :
    (rpc.writesDone options).pending = rpc.pending := by
  unfold writesDone
  split
  · rfl
  dsimp only
  split
  · rfl
  · rw [processQueue_scheduled]
    rfl

/-- Nor does sending it. -/
theorem sendInitialRequest_scheduled (options : HandlerOptions) (rpc : Rpc) (sendHEADERS : Bool) :
    (rpc.sendInitialRequest options sendHEADERS).pending.count .messageWritten ≤
      rpc.pending.count .messageWritten := by
  unfold sendInitialRequest
  split
  · exact le_rfl
  split
  · exact (asyncFinish_apart rpc _).scheduled
  · rw [processQueue_scheduled]
    rfl

/-- A step that keeps the account: the counters stay exact, and nothing is scheduled. -/
def Keeps (account : Account) (rpc next : Rpc) : Prop :=
  Counted next account ∧
    next.pending.count .messageWritten ≤ rpc.pending.count .messageWritten

/-- A step that leaves the counters alone keeps the account. -/
theorem Counted.keeps {rpc next : Rpc} {account : Account} (h : Counted rpc account)
    (hapart : Apart rpc next) : Keeps account rpc next := ⟨h.apart hapart, hapart.scheduled⟩

/-- Code that runs on keeps the account. -/
theorem resume_keeps {rpc next : Rpc} {account : Account} (options : HandlerOptions)
    (reads : List ReadResult) (h : Counted rpc account)
    (hstep : rpc.resume options reads = some next) : Keeps account rpc next := by
  unfold resume at hstep
  split at hstep
  · rename_i rest hstack
    cases hstep
    refine h.keeps ((Apart.pop hstack).trans ?_)
    exact ⟨rfl, rfl, rfl, rfl, rfl, rfl, id, le_rfl⟩
  · rename_i endStream rest hstack
    cases hstep
    exact h.keeps ((Apart.pop hstack).trans (receiveNext_apart options _ endStream reads))
  · rename_i draining rest hstack
    split at hstep
    · cases hstep
    · split at hstep <;> cases hstep
      · refine ⟨sendNext_counted _ h, ?_⟩
        rw [(sendNext_sameEnd _ rpc).2.2.2.2.1]
      · refine h.keeps ((Apart.pop hstack).trans ?_)
        exact ⟨rfl, rfl, rfl, rfl, rfl, rfl, id, le_rfl⟩
  · rename_i rest hstack
    cases hstep
    refine h.keeps ((Apart.pop hstack).trans ?_)
    exact ⟨rfl, rfl, rfl, rfl, rfl, rfl, id, le_rfl⟩
  · rename_i rest hstack
    cases hstep
    split
    · exact h.keeps ((Apart.pop hstack).trans (cancelWithStatus_apart _ _))
    · exact h.keeps (Apart.pop hstack)
  · rename_i rest hstack
    cases hstep
    exact h.keeps ((Apart.pop hstack).trans (dropStream_apart _))
  · rename_i rest hstack
    cases hstep
    exact h.keeps ((Apart.pop hstack).trans (destroy_apart _))
  · cases hstep

/-- Every input but the reports of the stream keeps the account. -/
theorem step_keeps (env : Environment) (options : HandlerOptions) (rpc next : Rpc)
    (account : Account) (input : Input) (hbytes : ∀ bytes, input ≠ .bytesWritten bytes)
    (hupload : input ≠ .uploadFinished) (h : Counted rpc account)
    (hout : Outgoing options.rpcType.endStreamAtFirstData rpc)
    (hstep : step env options rpc input = some next) : Keeps account rpc next := by
  cases input
  all_goals simp only [step] at hstep
  case headersReceived headers endStream =>
    split at hstep <;> cases hstep
    exact h.keeps (headersReceived_apart env options rpc headers endStream)
  case dataReceived data endStream =>
    split at hstep <;> cases hstep
    refine h.keeps ?_
    unfold dataReceived
    split
    · exact .refl rpc
    · split
      · exact .refl rpc
      · refine Apart.push ?_ (by simp)
        exact ⟨rfl, rfl, rfl, rfl, rfl, rfl, id, le_rfl⟩
  case errorOccurred code text =>
    split at hstep
    · cases hstep
    · rename_i stream hstream
      split at hstep
      · cases hstep
      · split at hstep <;> cases hstep
        · exact h.keeps (.refl rpc)
        · refine h.keeps (Apart.trans ?_ (finish_apart _ _))
          refine ⟨rfl, rfl, rfl, rfl, rfl, rfl, ?_, le_rfl⟩
          simp [Carrying, isUploading, hstream]
  case bytesWritten bytes => exact absurd rfl (hbytes bytes)
  case uploadFinished => exact absurd rfl hupload
  case uploadDropped =>
    split at hstep
    · cases hstep
    · split at hstep <;> cases hstep
      exact h.keeps ((idle_apart rpc _ rfl).emit rfl)
  case streamStateChanged state =>
    obtain ⟨stream, hstream, rfl⟩ := Option.map_eq_some_iff.mp hstep
    refine h.keeps ⟨rfl, rfl, rfl, rfl, rfl, rfl, ?_, le_rfl⟩
    simp [Carrying, isUploading, hstream]
  case sendDATAAccepted =>
    split at hstep <;> cases hstep
    rename_i rest stream hstack hstream
    refine h.keeps (Apart.emit ?_ rfl)
    refine ⟨rfl, rfl, rfl, rfl, rfl, rfl, fun _ => ?_, le_rfl⟩
    exact .inl (by simp [hstack])
  case sendDATARefused =>
    split at hstep <;> cases hstep
    rename_i draining rest hstack
    have htail := hout.sendingTop
    rw [hstack] at htail
    have hidle := hout.sendingIdle (by simp [hstack])
    refine ⟨{ h with carried := fun hcarrying => ?_ }, le_rfl⟩
    rcases hcarrying with hmem | hbusy
    · exact absurd (List.mem_cons_of_mem _ hmem) htail
    · cases hidle.symm.trans hbusy
  case sendDATAReturned =>
    split at hstep <;> cases hstep
    rename_i rest hstack
    exact h.keeps (Apart.pop hstack)
  case attachStream =>
    split at hstep <;> cases hstep
    exact h.keeps ((idle_apart rpc _ rfl).emit rfl)
  case createStreamFailed error =>
    split at hstep <;> cases hstep
    exact h.keeps (asyncFinish_apart rpc _)
  case sendInitialRequest sendHEADERS =>
    split at hstep <;> cases hstep
    exact ⟨sendInitialRequest_counted options sendHEADERS h,
      sendInitialRequest_scheduled options rpc sendHEADERS⟩
  case socketError errorCode =>
    split at hstep
    · cases hstep
    · split at hstep <;> cases hstep
      · exact h.keeps (destroy_apart rpc)
      · exact h.keeps (((Apart.refl rpc).push (by simp)).trans (finish_apart _ _))
  case connectionDeleted =>
    split at hstep <;> cases hstep
    exact h.keeps (dropStream_apart rpc)
  case channelDestroyed =>
    have hreleased : Apart rpc { rpc with channelAlive := false } :=
      ⟨rfl, rfl, rfl, rfl, rfl, rfl, id, le_rfl⟩
    split at hstep
    · cases hstep
    · split at hstep <;> cases hstep
      · exact h.keeps ((hreleased.push (by simp)).trans (finish_apart _ _))
      · exact h.keeps (hreleased.trans (destroy_apart _))
  case writeMessage data compressed =>
    split at hstep <;> cases hstep
    split
    · exact ⟨writeMessage_counted options data compressed h,
        writeMessage_scheduled options rpc data compressed⟩
    · exact h.keeps (.refl rpc)
  case writeUnserializable messageTooLarge lastErrorString =>
    split at hstep <;> cases hstep
    split
    · exact h.keeps (contextFinished_apart rpc _ _ (by simp))
    · exact h.keeps (.refl rpc)
  case writesDone =>
    split at hstep <;> cases hstep
    split
    · exact ⟨writesDone_counted options h, by rw [writesDone_scheduled]⟩
    · exact h.keeps (.refl rpc)
  case cancel =>
    split at hstep <;> cases hstep
    unfold cancel
    split
    · exact h.keeps (.refl rpc)
    · exact h.keeps (cancelWithStatus_apart rpc _)
  case slotReturned =>
    split at hstep <;> cases hstep
    rename_i rest hstack
    exact h.keeps (Apart.pop hstack)
  case resume reads => exact resume_keeps options reads h hstep
  case deadlineTimeout =>
    split at hstep <;> cases hstep
    refine h.keeps (Apart.trans ?_ (cancelWithStatus_apart _ _))
    exact ⟨rfl, rfl, rfl, rfl, rfl, rfl, id, le_rfl⟩
  case callback callback =>
    have htaken : Apart rpc { rpc with pending := rpc.pending.erase callback } :=
      ⟨rfl, rfl, rfl, rfl, rfl, rfl, id, List.erase_sublist.count_le _⟩
    split at hstep
    · cases hstep
    cases callback with
    | messageWritten =>
      simp only at hstep
      split at hstep
      · cases hstep
      · split at hstep <;> cases hstep
        · exact h.keeps ((htaken.emit rfl).push (by simp))
        · exact h.keeps htaken
    | asyncFinish status =>
      simp only at hstep
      split at hstep <;> cases hstep
      exact h.keeps (htaken.trans (finish_apart _ status))
    | contextFinished status =>
      simp only at hstep
      split at hstep <;> cases hstep
      exact h.keeps (htaken.trans (contextFinished_apart _ status [] (by simp)))
  case deferredDelete =>
    split at hstep <;> cases hstep
    exact h.keeps (destroy_apart rpc)
  case contextDestroyed =>
    split at hstep <;> cases hstep
    exact h.keeps ⟨rfl, rfl, rfl, rfl, rfl, rfl, id, le_rfl⟩

/-- Every step keeps the counters exact for the account it writes. -/
theorem step_counted (env : Environment) (options : HandlerOptions) (rpc next : Rpc)
    (account : Account) (input : Input) (honce : ReportsOnce (rpc, account) input)
    (h : Counted rpc account) (hout : Outgoing options.rpcType.endStreamAtFirstData rpc)
    (hstep : step env options rpc input = some next) :
    Counted next (account.record rpc input next) := by
  by_cases hbytes : ∃ bytes, input = .bytesWritten bytes
  · obtain ⟨bytes, rfl⟩ := hbytes
    simp only [step] at hstep
    split at hstep <;> cases hstep
    have hcounted := bytesWritten_counted h (honce bytes rfl)
    simpa [Account.record] using hcounted
  by_cases hupload : input = .uploadFinished
  · subst hupload
    simp only [step] at hstep
    split at hstep
    · cases hstep
    · rename_i stream hstream
      split at hstep <;> cases hstep
      rename_i hready
      have hbusy : rpc.isUploading = true := by simpa [isUploading, hstream] using hready.2
      refine uploadFinished_counted options h (.inr hbusy)
        ((idle_apart rpc _ rfl).emit rfl) rfl ?_
      rintro (hmem | hidle)
      · exact hout.clear_of_stream hready.1 hmem
      · cases hidle
  · have hkeeps := step_keeps env options rpc next account input
      (fun bytes hinput => hbytes ⟨bytes, hinput⟩) hupload h hout hstep
    rw [record_of_apart (fun bytes hinput => hbytes ⟨bytes, hinput⟩) hupload hkeeps.2]
    exact hkeeps.1

/-- Nothing is reported and nothing uploaded before the first step. -/
theorem starts_counted (options : HandlerOptions) (start : Rpc) (hstart : Starts options start) :
    Counted start {} := by
  have hfresh : Counted (fresh options) {} := by
    constructor <;> simp [fresh, heldBytes, handedBytes, handed, queueSize, Carrying, isUploading]
  cases hstart with
  | constructed data compressed => exact writeMessage_counted options data compressed hfresh
  | turnedDown status h =>
    exact hfresh.apart ⟨rfl, rfl, rfl, rfl, rfl, rfl, id, by simp [fresh]⟩

/-- What a state keeps along every observed run. -/
structure Kept (env : Environment) (options : HandlerOptions) (observed : Rpc × Account) : Prop where
  ending : Ending env observed.1
  outgoing : Outgoing options.rpcType.endStreamAtFirstData observed.1
  counted : Counted observed.1 observed.2

/-- Every observed step keeps what every run keeps. -/
theorem observed_kept (env : Environment) (options : HandlerOptions) (observed next : Rpc × Account)
    (input : Input) (h : Kept env options observed) (honce : ReportsOnce observed input)
    (hstep : Transition.observed (step env options) Account.record observed input = some next) :
    Kept env options next := by
  obtain ⟨hnext, haccount⟩ := Transition.observed_eq_some _ _ hstep
  refine ⟨step_ending env options _ _ input h.ending hnext,
    step_outgoing env options _ _ input h.outgoing hnext, ?_⟩
  rw [haccount]
  exact step_counted env options _ _ _ input honce h.counted h.outgoing hnext

/-- The counters that every step keeps exact are the ones the statement is about. -/
theorem Counted.accounted {rpc : Rpc} {account : Account} (h : Counted rpc account) :
    WritesAccounted rpc account where
  queued := h.queued
  unreported := by
    rw [h.toWrite, h.queued, heldBytes, UInt64.ofNat_add]
    grind
  exact hmemory := by
    have hqueued : queueSize rpc.queue < 2 ^ 64 := by
      unfold InMemory heldBytes at hmemory
      omega
    rw [h.queued, h.toWrite, UInt64.toNat_ofNat_of_lt' hqueued, UInt64.toNat_ofNat_of_lt' hmemory]
    exact ⟨rfl, rfl⟩
  scheduled := h.scheduled
  once := h.once

/-- The bytes taken out of the queue were in it. -/
theorem Outgoing.bytes {endStreamAtFirstData : Bool} {rpc : Rpc}
    (h : Outgoing endStreamAtFirstData rpc) :
    handedBytes rpc.trace + queueSize rpc.queue = acceptedBytes rpc.trace := by
  rw [handedBytes, ← queueSize_append, h.queue, acceptedBytes]

/-- No assertion on the way of a step fails. -/
theorem Kept.assertionsHold {env : Environment} {options : HandlerOptions} {rpc next : Rpc}
    {account : Account} {input : Input} (h : Kept env options (rpc, account))
    (honce : ReportsOnce (rpc, account) input)
    (hstep : step env options rpc input = some next) (hmemory : InMemory rpc account)
    (hnext : InMemory next (account.record rpc input next)) : AssertionsHold rpc input next := by
  obtain ⟨events, htrace⟩ := step_trace env options rpc next input h.ending hstep
  have hout := h.outgoing.bytes
  have houtNext := (step_outgoing env options rpc next input h.outgoing hstep).bytes
  dsimp only at hout
  have haccepted : acceptedBytes next.trace = acceptedBytes rpc.trace + acceptedBytes events := by
    rw [htrace, acceptedBytes, accepted, List.filterMap_append, queueSize_append]
    rfl
  have hhanded : handedBytes next.trace = handedBytes rpc.trace + handedBytes events := by
    rw [htrace, handedBytes, handed, List.filterMap_append, queueSize_append]
    rfl
  have hreported : (account.record rpc input next).reported ≤ handedBytes rpc.trace := by
    have hearlier := h.counted.reported
    unfold Account.record
    split
    · exact honce _ rfl
    · exact hearlier
  refine ⟨fun bytes hinput => ?_, ?_⟩
  · have hbytes := honce bytes hinput
    have hheld : bytes.toNat ≤ heldBytes rpc account := by
      unfold heldBytes
      dsimp only at hbytes
      omega
    rw [h.counted.toWrite, UInt64.le_iff_toNat_le, UInt64.toNat_ofNat_of_lt' hmemory]
    exact hheld
  · have hmoved : handedBytes next.trace - handedBytes rpc.trace + queueSize next.queue =
        queueSize rpc.queue + (acceptedBytes next.trace - acceptedBytes rpc.trace) := by
      omega
    have hfits : queueSize rpc.queue + (acceptedBytes next.trace - acceptedBytes rpc.trace) <
        UInt64.size := by
      unfold InMemory heldBytes at hnext
      have hsize : UInt64.size = 2 ^ 64 := rfl
      omega
    rw [h.counted.queued, ← UInt64.ofNat_add, UInt64.le_iff_toNat_le,
      UInt64.toNat_ofNat_of_lt' (by omega), UInt64.toNat_ofNat_of_lt' hfits]
    omega

end Rpc

/-- In every run in which the stream reports no byte twice, the counters are exact in every state,
`messageWritten` is scheduled once for each uploaded message that does not close the request, and
the next step violates no assertion. -/
theorem writesAccounted_of_run (env : Environment) (options : HandlerOptions) (start final : Rpc)
    (account : Account) (inputs : List Input) (hstart : Rpc.Starts options start)
    (halong : Transition.Along (Transition.observed (Rpc.step env options) Account.record)
      ReportsOnce (start, {}) inputs)
    (hrun : Transition.run (Transition.observed (Rpc.step env options) Account.record)
      (start, {}) inputs = some (final, account)) :
    WritesAccounted final account ∧
      ∀ input next, Rpc.step env options final input = some next →
        ReportsOnce (final, account) input → InMemory final account →
        InMemory next (account.record final input next) → AssertionsHold final input next := by
  have hkept : Rpc.Kept env options (final, account) :=
    Transition.run_invariant_along _ ReportsOnce (Rpc.Kept env options)
      (fun observed input next h honce => Rpc.observed_kept env options observed next input h honce)
      (start, {}) (final, account) inputs
      ⟨Rpc.starts_ending env options start hstart, Rpc.starts_outgoing options start hstart,
        Rpc.starts_counted options start hstart⟩ halong hrun
  exact ⟨hkept.counted.accounted, fun input next hstep honce hmemory hnext =>
    hkept.assertionsHold honce hstep hmemory hnext⟩

/-- The upload of the initial message of a bidirectional stream, reported in two parts. -/
def uploadedInParts : List Input :=
  [.attachStream, .sendInitialRequest true, .sendDATAAccepted, .bytesWritten 2, .bytesWritten 3,
    .uploadFinished, .sendDATAReturned]

/-- Both parts of the report are entered, and `messageWritten` is scheduled once. -/
theorem writesAccounted_uploadedInParts :
    ∃ final account,
      Transition.run (Transition.observed (Rpc.step plainEnvironment bidiOptions) Account.record)
        (startedBidi, {}) uploadedInParts = some (final, account) ∧
      WritesAccounted final account ∧ account.scheduled = [0] := by
  obtain ⟨⟨final, account⟩, hrun⟩ := Option.isSome_iff_exists.mp
    (show (Transition.run (Transition.observed (Rpc.step plainEnvironment bidiOptions)
      Account.record) (startedBidi, {}) uploadedInParts).isSome = true by decide)
  have hscheduled : (Transition.run (Transition.observed (Rpc.step plainEnvironment bidiOptions)
      Account.record) (startedBidi, {}) uploadedInParts).map (·.2.scheduled) = some [0] := by
    decide
  rw [hrun] at hscheduled
  exact ⟨final, account, hrun,
    (writesAccounted_of_run plainEnvironment bidiOptions startedBidi final account uploadedInParts
      (.constructed [] none) (by decide) hrun).1, by simpa using hscheduled⟩

end QtGrpc.Http2
