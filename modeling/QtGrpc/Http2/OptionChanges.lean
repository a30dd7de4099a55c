import QtGrpc.Http2.Format
import QtGrpc.Library.TwoRuns

/-!
# Option changes after an RPC has started

Two runs of a channel that differ only in option changes behind the start of an RPC are laid side
by side. The RPC does the same in both exactly if the two late reads of the options, of the
deadline and of the accepted encodings, never answer differently.
-/

namespace QtGrpc.Http2

/-- The inputs that only one of the two runs may take. -/
def ChannelInput.isSetChannelOptions : ChannelInput → Bool
  | .setChannelOptions _ => true
  | _ => false

/-- What an RPC did and read is the same in two states of its channel: its request headers, the
data it sent and the signals it gave, its deadline and the encodings it accepted. -/
def SameRpc (index : Nat) (channels : Channel × Channel) : Prop :=
  ∃ first second, channels.1.rpcs[index]? = some first ∧ channels.2.rpcs[index]? = some second ∧
    first.initialHeaders = second.initialHeaders ∧ first.rpc.trace = second.rpc.trace ∧
    first.uses = second.uses

/-- Where the code reads the options of the channel late, two options give the same answer: the
call has a deadline of its own or both name the same one, and both accept or both reject every
encoding that a response names in an entry the scan comes to. -/
def Handler.Unaffected (env : Environment) (handler : Handler) (first second : ChannelOptions) :
    Input → Prop
  | .resume _ => handler.rpc.stack.head? = some .sendInitialRequest →
      handler.callOptions.deadlineTimeout = none → first.deadlineTimeout = second.deadlineTimeout
  | .headersReceived headers endStream =>
    handler.rpc.context = true → Rpc.headerPhase handler.rpc.state endStream = some .initial →
      ∀ before v after, headers = before ++ (ascii "grpc-encoding", v) :: after →
        (handler.scan.entries env (handler.options first).headers .initial before).isOk = true →
        isAcceptedEncoding v first.acceptedCompressionAlgorithms.toList =
          isAcceptedEncoding v second.acceptedCompressionAlgorithms.toList
  | _ => True

/-- The condition on a step of both runs: the options in force answer alike what the RPC reads. -/
def Unaffected (env : Environment) (index : Nat) (channels : Channel × Channel) :
    Transition.Paired ChannelInput → Prop
  | .both (.rpc i input) => i = index → ∀ handler, channels.1.rpcs[index]? = some handler →
      handler.Unaffected env channels.1.channelOptions channels.2.channelOptions input
  | _ => True

/-- Two histories that disagree at a place both have reached. -/
def Diverged {α : Type} (first second : List α) : Prop :=
  ∃ (i : Nat) (a b : α), first[i]? = some a ∧ second[i]? = some b ∧ a ≠ b

/-- Histories that disagree are not the same. -/
theorem Diverged.ne {α : Type} {first second : List α} (h : Diverged first second) :
    first ≠ second := by
  rintro rfl
  obtain ⟨i, a, b, ha, hb, hne⟩ := h
  rw [ha] at hb
  exact hne (Option.some.inj hb)

/-- What follows does not mend a disagreement. -/
theorem Diverged.append {α : Type} {first second : List α} (h : Diverged first second)
    (later latter : List α) : Diverged (first ++ later) (second ++ latter) := by
  obtain ⟨i, a, b, ha, hb, hne⟩ := h
  refine ⟨i, a, b, ?_, ?_, hne⟩
  · rw [List.getElem?_append_left (List.getElem?_eq_some_iff.mp ha).1, ha]
  · rw [List.getElem?_append_left (List.getElem?_eq_some_iff.mp hb).1, hb]

/-- They still disagree behind one more common event. -/
theorem Diverged.cons {α : Type} {first second : List α} (h : Diverged first second) (a : α) :
    Diverged (a :: first) (a :: second) := by
  obtain ⟨i, b, c, hb, hc, hne⟩ := h
  exact ⟨i + 1, b, c, by simpa using hb, by simpa using hc, hne⟩

/-- And behind several. -/
theorem Diverged.append_left {α : Type} {first second : List α} (h : Diverged first second)
    (earlier : List α) : Diverged (earlier ++ first) (earlier ++ second) := by
  induction earlier with
  | nil => exact h
  | cons a earlier ih => exact ih.cons a

/-- Options that agree on the encoding of an entry treat the entry alike. -/
theorem HeaderScan.entry_congr (env : Environment) (first second : HeaderOptions)
    (phase : HeaderPhase) (scan : HeaderScan) (k v : Bytes)
    (hfilter : first.filterServerMetadata = second.filterServerMetadata)
    (haccepted : phase = .initial → k = ascii "grpc-encoding" →
      isAcceptedEncoding v first.acceptedCompressionAlgorithms =
        isAcceptedEncoding v second.acceptedCompressionAlgorithms) :
    scan.entry env first phase k v = scan.entry env second phase k v := by
  by_cases hencoding : phase = .initial ∧ k = ascii "grpc-encoding"
  · unfold HeaderScan.entry
    rw [haccepted hencoding.1 hencoding.2, hfilter]
  · unfold HeaderScan.entry
    simp only [hencoding, if_false, hfilter]

/-- Header entries are scanned alike if filtering and the encodings they name are. -/
theorem HeaderScan.entries_congr (env : Environment) (first second : HeaderOptions)
    (phase : HeaderPhase) (scan : HeaderScan) (headers : HttpHeader)
    (hfilter : first.filterServerMetadata = second.filterServerMetadata)
    (haccepted : phase = .initial → ∀ before v after,
      headers = before ++ (ascii "grpc-encoding", v) :: after →
      (scan.entries env first phase before).isOk = true →
      isAcceptedEncoding v first.acceptedCompressionAlgorithms =
        isAcceptedEncoding v second.acceptedCompressionAlgorithms) :
    scan.entries env first phase headers = scan.entries env second phase headers ∧
      scan.encodings env first phase headers = scan.encodings env second phase headers := by
  induction headers generalizing scan with
  | nil => exact ⟨rfl, rfl⟩
  | cons entry headers ih =>
    obtain ⟨k, v⟩ := entry
    have hhere : phase = .initial → k = ascii "grpc-encoding" →
        isAcceptedEncoding v first.acceptedCompressionAlgorithms =
          isAcceptedEncoding v second.acceptedCompressionAlgorithms := by
      rintro hphase rfl
      exact haccepted hphase [] v headers rfl rfl
    have hentry := HeaderScan.entry_congr env first second phase scan k v hfilter hhere
    have hencoding : (if phase = .initial ∧ k = ascii "grpc-encoding" then
          [OptionUse.encoding v (isAcceptedEncoding v first.acceptedCompressionAlgorithms)]
        else []) = if phase = .initial ∧ k = ascii "grpc-encoding" then
          [OptionUse.encoding v (isAcceptedEncoding v second.acceptedCompressionAlgorithms)]
        else [] := by
      split
      · rename_i h
        rw [hhere h.1 h.2]
      · rfl
    rw [HeaderScan.entries, HeaderScan.entries, HeaderScan.encodings, HeaderScan.encodings, hentry,
      hencoding]
    cases hnext : scan.entry env second phase k v with
    | error violation => exact ⟨rfl, rfl⟩
    | ok next =>
      obtain ⟨hentries, hencodings⟩ := ih next fun hphase before v' after hheaders hok => by
        refine haccepted hphase ((k, v) :: before) v' after (by rw [hheaders]; rfl) ?_
        rw [HeaderScan.entries, hentry, hnext]
        exact hok
      exact ⟨hentries, by dsimp only; rw [hencodings]⟩

/-- Where an entry the scan comes to is accepted under one of two options only, what they read
disagrees. -/
theorem HeaderScan.encodings_diverged (env : Environment) (first second : HeaderOptions)
    (scan : HeaderScan) (before : HttpHeader) (v : Bytes) (after : HttpHeader)
    (hfilter : first.filterServerMetadata = second.filterServerMetadata)
    (hok : (scan.entries env first .initial before).isOk = true)
    (hdiffer : isAcceptedEncoding v first.acceptedCompressionAlgorithms ≠
      isAcceptedEncoding v second.acceptedCompressionAlgorithms) :
    Diverged (scan.encodings env first .initial (before ++ (ascii "grpc-encoding", v) :: after))
      (scan.encodings env second .initial (before ++ (ascii "grpc-encoding", v) :: after)) := by
  have hhead (scan : HeaderScan) (v : Bytes) (headers : HttpHeader)
      (hdiffer : isAcceptedEncoding v first.acceptedCompressionAlgorithms ≠
        isAcceptedEncoding v second.acceptedCompressionAlgorithms) :
      Diverged (scan.encodings env first .initial ((ascii "grpc-encoding", v) :: headers))
        (scan.encodings env second .initial ((ascii "grpc-encoding", v) :: headers)) := by
    refine ⟨0, .encoding v (isAcceptedEncoding v first.acceptedCompressionAlgorithms),
      .encoding v (isAcceptedEncoding v second.acceptedCompressionAlgorithms), ?_, ?_,
      by simpa using hdiffer⟩ <;>
    · simp only [HeaderScan.encodings, and_self, if_true]
      split <;> rfl
  induction before generalizing scan with
  | nil => exact hhead scan v after hdiffer
  | cons entry before ih =>
    obtain ⟨k, w⟩ := entry
    by_cases hsplit : k = ascii "grpc-encoding" ∧
        isAcceptedEncoding w first.acceptedCompressionAlgorithms ≠
          isAcceptedEncoding w second.acceptedCompressionAlgorithms
    · obtain ⟨rfl, hw⟩ := hsplit
      exact hhead scan w _ hw
    · have hhere : k = ascii "grpc-encoding" →
          isAcceptedEncoding w first.acceptedCompressionAlgorithms =
            isAcceptedEncoding w second.acceptedCompressionAlgorithms := by
        intro hk
        by_contra hw
        exact hsplit ⟨hk, hw⟩
      have hentry := HeaderScan.entry_congr env first second .initial scan k w hfilter
        fun _ => hhere
      rw [HeaderScan.entries] at hok
      rw [List.cons_append, HeaderScan.encodings, HeaderScan.encodings, ← hentry]
      cases hnext : scan.entry env first .initial k w with
      | error violation =>
        rw [hnext] at hok
        cases hok
      | ok next =>
        rw [hnext] at hok
        have hdiverged := ih next hok
        dsimp only
        split
        · rename_i hencoding
          rw [hhere hencoding.2]
          exact hdiverged.append_left _
        · exact hdiverged

namespace Handler

variable (env : Environment) (handler : Handler) (first second : ChannelOptions)

/-- The deadline is the same if the call has one or the channel's is the same. -/
theorem deadlineTimeout_congr (h : handler.callOptions.deadlineTimeout = none →
    first.deadlineTimeout = second.deadlineTimeout) :
    deadlineTimeout first handler.callOptions = deadlineTimeout second handler.callOptions := by
  unfold deadlineTimeout
  cases hcall : handler.callOptions.deadlineTimeout with
  | none => simpa [hcall] using h hcall
  | some timeout => rfl

/-- A header block is handled alike under options that answer its encodings alike. -/
theorem headersReceived_congr (headers : HttpHeader) (endStream : Bool)
    (h : handler.Unaffected env first second (.headersReceived headers endStream)) :
    handler.rpc.headersReceived env (handler.options first) headers endStream =
      handler.rpc.headersReceived env (handler.options second) headers endStream := by
  unfold Rpc.headersReceived
  split
  · rfl
  cases hphase : Rpc.headerPhase handler.rpc.state endStream with
  | none => rfl
  | some phase =>
    dsimp only
    split
    · rfl
    rename_i hcontext
    have hentries := (HeaderScan.entries_congr env (handler.options first).headers
      (handler.options second).headers phase handler.scan headers rfl
      fun hinitial => by
        subst hinitial
        exact h (by simpa using hcontext) hphase).1
    have hhandle : handleHeaders env (handler.options first).headers phase
        handler.rpc.negotiatedEncoding handler.rpc.decompressor headers =
          handleHeaders env (handler.options second).headers phase
            handler.rpc.negotiatedEncoding handler.rpc.decompressor headers := by
      unfold handleHeaders
      unfold scan at hentries
      dsimp only
      rw [hentries]
    rw [hhandle]

/-- Code that runs on does the same under options that answer alike. -/
theorem resume_congr (reads : List ReadResult)
    (h : handler.Unaffected env first second (.resume reads)) :
    handler.rpc.resume (handler.options first) reads =
      handler.rpc.resume (handler.options second) reads := by
  cases hstack : handler.rpc.stack with
  | nil => simp only [Rpc.resume, hstack]
  | cons code rest =>
    by_cases hcode : code = .sendInitialRequest
    · subst hcode
      have hdeadline := handler.deadlineTimeout_congr first second (h (by rw [hstack]; rfl))
      have hhas : (handler.options first).hasDeadline = (handler.options second).hasDeadline := by
        simp only [options, hdeadline]
      simp only [Rpc.resume, hstack, hhas]
    · cases code <;> first | exact absurd rfl hcode | (simp only [Rpc.resume, hstack]; try rfl)

/-- So does every input. -/
theorem rpcStep_congr (input : Input) (h : handler.Unaffected env first second input) :
    Rpc.step env (handler.options first) handler.rpc input =
      Rpc.step env (handler.options second) handler.rpc input := by
  cases input with
  | headersReceived headers endStream =>
    simp only [Rpc.step, handler.headersReceived_congr env first second headers endStream h]
  | resume reads => exact handler.resume_congr env first second reads h
  | _ => rfl

/-- And it reads the same of them. -/
theorem optionUses_congr (input : Input) (h : handler.Unaffected env first second input) :
    handler.optionUses env first input = handler.optionUses env second input := by
  cases input with
  | headersReceived headers endStream =>
    simp only [optionUses]
    split
    · rename_i hready
      exact (HeaderScan.entries_congr env (handler.options first).headers
        (handler.options second).headers .initial handler.scan headers rfl
        fun _ => h hready.1 hready.2).2
    · rfl
  | resume reads =>
    simp only [optionUses]
    split
    · rename_i hstack
      rw [handler.deadlineTimeout_congr first second (h hstack)]
    · rfl
  | _ => rfl

/-- A step reads the same from options that answer alike, and so does the same. -/
theorem step_congr (input : Input) (h : handler.Unaffected env first second input) :
    handler.step env first input = handler.step env second input := by
  rw [step, step, handler.rpcStep_congr env first second input h,
    handler.optionUses_congr env first second input h]

/-- A late read that is answered differently is recorded as such. -/
theorem optionUses_diverged (input : Input) (h : ¬ handler.Unaffected env first second input) :
    Diverged (handler.optionUses env first input) (handler.optionUses env second input) := by
  cases input with
  | headersReceived headers endStream =>
    simp only [Unaffected, not_forall] at h
    obtain ⟨hcontext, hphase, before, v, after, rfl, hok, hdiffer⟩ := h
    simp only [optionUses, hcontext, hphase, and_self, if_true]
    exact HeaderScan.encodings_diverged env (handler.options first).headers
      (handler.options second).headers handler.scan before v after rfl hok hdiffer
  | resume reads =>
    simp only [Unaffected, not_forall] at h
    obtain ⟨hstack, hcall, hdiffer⟩ := h
    simp only [optionUses, hstack, if_true]
    refine ⟨0, _, _, rfl, rfl, fun heq => hdiffer ?_⟩
    have := OptionUse.deadline.inj heq
    simpa [deadlineTimeout, hcall] using this
  | _ => exact absurd trivial h

end Handler

namespace Channel

/-- One RPC after a step of its channel: it took the input itself, or nothing happened to it. -/
theorem step_handler {env : Environment} {channel next : Channel} {input : ChannelInput}
    {index : Nat} {handler : Handler} (hhandler : channel.rpcs[index]? = some handler)
    (hstep : channel.step env input = some next) :
    (∃ own stepped, input = .rpc index own ∧
      handler.step env channel.channelOptions own = some stepped ∧
      next.rpcs[index]? = some stepped) ∨
    (∀ own, input ≠ .rpc index own) ∧ next.rpcs[index]? = some handler := by
  have hlength := (List.getElem?_eq_some_iff.mp hhandler).1
  cases input with
  | setChannelOptions channelOptions =>
    cases hstep
    exact .inr ⟨by simp, hhandler⟩
  | start operation =>
    cases hstep
    refine .inr ⟨by simp, ?_⟩
    unfold start
    split <;> rw [List.getElem?_append_left hlength, hhandler]
  | turnDown operation status =>
    simp only [step] at hstep
    split at hstep <;> cases hstep
    exact .inr ⟨by simp, by rw [List.getElem?_append_left hlength, hhandler]⟩
  | rpc i own =>
    simp only [step] at hstep
    split at hstep
    · cases hstep
    rename_i found hfound
    obtain ⟨stepped, hstepped, rfl⟩ := Option.map_eq_some_iff.mp hstep
    by_cases hi : i = index
    · subst hi
      obtain rfl : found = handler := by
        rw [hhandler] at hfound
        exact (Option.some.inj hfound).symm
      exact .inl ⟨own, stepped, rfl, hstepped, by simp [hlength]⟩
    · refine .inr ⟨fun other hother => hi ?_, ?_⟩
      · injection hother
      · rw [List.getElem?_set_ne hi, hhandler]

end Channel

/-- The states of one RPC in both runs, related while nothing distinguishes the runs. -/
def SameHandler (index : Nat) (channels : Channel × Channel) : Prop :=
  ∃ handler, channels.1.rpcs[index]? = some handler ∧ channels.2.rpcs[index]? = some handler

/-- One RPC once it has read different answers. -/
def DivergedRpc (index : Nat) (channels : Channel × Channel) : Prop :=
  ∃ first second, channels.1.rpcs[index]? = some first ∧ channels.2.rpcs[index]? = some second ∧
    Diverged first.uses second.uses

/-- The same handler is the same RPC. -/
theorem SameHandler.sameRpc {index : Nat} {channels : Channel × Channel}
    (h : SameHandler index channels) : SameRpc index channels := by
  obtain ⟨handler, hfirst, hsecond⟩ := h
  exact ⟨handler, handler, hfirst, hsecond, rfl, rfl, rfl⟩

/-- An RPC that read different answers is not the same. -/
theorem DivergedRpc.not_sameRpc {index : Nat} {channels : Channel × Channel}
    (h : DivergedRpc index channels) : ¬ SameRpc index channels := by
  rintro ⟨first, second, hfirst, hsecond, -, -, huses⟩
  obtain ⟨first', second', hfirst', hsecond', hdiverged⟩ := h
  rw [hfirst] at hfirst'
  rw [hsecond] at hsecond'
  cases hfirst'
  cases hsecond'
  exact hdiverged.ne huses

/-- A step extends what an RPC has read. -/
theorem Channel.step_uses {env : Environment} {channel next : Channel} {input : ChannelInput}
    {index : Nat} {handler : Handler} (hhandler : channel.rpcs[index]? = some handler)
    (hstep : channel.step env input = some next) :
    ∃ stepped later, next.rpcs[index]? = some stepped ∧ stepped.uses = handler.uses ++ later := by
  rcases Channel.step_handler hhandler hstep with ⟨own, stepped, -, hstepped, hnext⟩ | ⟨-, hnext⟩
  · obtain ⟨rpc, -, rfl⟩ := Option.map_eq_some_iff.mp hstepped
    exact ⟨_, _, hnext, rfl⟩
  · exact ⟨handler, [], hnext, by simp⟩

/-- The runs of a channel that differ in option changes, side by side. -/
abbrev pairedStep (env : Environment) :=
  Transition.pairStep (Channel.step env) ChannelInput.isSetChannelOptions

/-- A step of both runs with options that answer alike keeps the handler the same. -/
theorem pairedStep_sameHandler {env : Environment} {index : Nat} {channels next : Channel × Channel}
    {input : Transition.Paired ChannelInput} (h : SameHandler index channels)
    (hunaffected : Unaffected env index channels input)
    (hstep : pairedStep env channels input = some next) : SameHandler index next := by
  obtain ⟨handler, hfirst, hsecond⟩ := h
  have halone (channel after : Channel) (i : ChannelInput) (halone : i.isSetChannelOptions = true)
      (hstep : channel.step env i = some after) : after.rpcs = channel.rpcs := by
    cases i <;> first | cases hstep; rfl | cases halone
  cases input with
  | first i =>
    simp only [Transition.pairStep] at hstep
    split at hstep
    · rename_i hi
      obtain ⟨after, hafter, rfl⟩ := Option.map_eq_some_iff.mp hstep
      exact ⟨handler, by rw [halone _ _ i hi hafter, hfirst], hsecond⟩
    · cases hstep
  | second i =>
    simp only [Transition.pairStep] at hstep
    split at hstep
    · rename_i hi
      obtain ⟨after, hafter, rfl⟩ := Option.map_eq_some_iff.mp hstep
      exact ⟨handler, hfirst, by rw [halone _ _ i hi hafter, hsecond]⟩
    · cases hstep
  | both i =>
    simp only [Transition.pairStep, Option.bind_eq_some_iff, Option.map_eq_some_iff] at hstep
    obtain ⟨first, hfirstStep, second, hsecondStep, rfl⟩ := hstep
    rcases Channel.step_handler hfirst hfirstStep with
      ⟨own, stepped, rfl, hstepped, hnext⟩ | ⟨hother, hnext⟩
    · rcases Channel.step_handler hsecond hsecondStep with
        ⟨own', stepped', heq, hstepped', hnext'⟩ | ⟨hother, -⟩
      · injection heq with _ heq
        subst heq
        have hcongr := handler.step_congr env channels.1.channelOptions channels.2.channelOptions
          own (hunaffected rfl handler hfirst)
        rw [hstepped, hstepped'] at hcongr
        cases hcongr
        exact ⟨stepped, hnext, hnext'⟩
      · exact absurd rfl (hother own)
    · rcases Channel.step_handler hsecond hsecondStep with ⟨own, -, rfl, -, -⟩ | ⟨-, hnext'⟩
      · exact absurd rfl (hother own)
      · exact ⟨handler, hnext, hnext'⟩

/-- One with options that answer differently makes the RPC another one. -/
theorem pairedStep_diverges {env : Environment} {index : Nat} {channels next : Channel × Channel}
    {input : Transition.Paired ChannelInput} (h : SameHandler index channels)
    (haffected : ¬ Unaffected env index channels input)
    (hstep : pairedStep env channels input = some next) : DivergedRpc index next := by
  obtain ⟨handler, hfirst, hsecond⟩ := h
  rcases input with i | i | (channelOptions | operation | ⟨operation, status⟩ | ⟨i, own⟩)
  case both.rpc =>
    simp only [Unaffected, not_forall] at haffected
    obtain ⟨rfl, found, hfound, hreads⟩ := haffected
    rw [hfirst] at hfound
    cases hfound
    simp only [Transition.pairStep, Option.bind_eq_some_iff, Option.map_eq_some_iff] at hstep
    obtain ⟨first, hfirstStep, second, hsecondStep, rfl⟩ := hstep
    rcases Channel.step_handler hfirst hfirstStep with
      ⟨own', stepped, heq, hstepped, hnext⟩ | ⟨hother, -⟩
    · injection heq with _ heq
      subst heq
      rcases Channel.step_handler hsecond hsecondStep with
        ⟨own', stepped', heq, hstepped', hnext'⟩ | ⟨hother, -⟩
      · injection heq with _ heq
        subst heq
        obtain ⟨rpc, -, rfl⟩ := Option.map_eq_some_iff.mp hstepped
        obtain ⟨rpc', -, rfl⟩ := Option.map_eq_some_iff.mp hstepped'
        exact ⟨_, _, hnext, hnext',
          (handler.optionUses_diverged env _ _ _ hreads).append_left handler.uses⟩
      · exact absurd rfl (hother _)
    · exact absurd rfl (hother _)
  all_goals exact absurd trivial haffected

/-- Nothing makes it the same again. -/
theorem pairedStep_divergedRpc {env : Environment} {index : Nat} {channels next : Channel × Channel}
    {input : Transition.Paired ChannelInput} (h : DivergedRpc index channels)
    (hstep : pairedStep env channels input = some next) : DivergedRpc index next := by
  obtain ⟨first, second, hfirst, hsecond, hdiverged⟩ := h
  cases input with
  | first i =>
    simp only [Transition.pairStep] at hstep
    split at hstep
    · obtain ⟨after, hafter, rfl⟩ := Option.map_eq_some_iff.mp hstep
      obtain ⟨stepped, later, hnext, huses⟩ := Channel.step_uses hfirst hafter
      refine ⟨stepped, second, hnext, hsecond, ?_⟩
      rw [huses, ← List.append_nil second.uses]
      exact hdiverged.append later []
    · cases hstep
  | second i =>
    simp only [Transition.pairStep] at hstep
    split at hstep
    · obtain ⟨after, hafter, rfl⟩ := Option.map_eq_some_iff.mp hstep
      obtain ⟨stepped, later, hnext, huses⟩ := Channel.step_uses hsecond hafter
      refine ⟨first, stepped, hfirst, hnext, ?_⟩
      rw [huses, ← List.append_nil first.uses]
      exact hdiverged.append [] later
    · cases hstep
  | both i =>
    simp only [Transition.pairStep, Option.bind_eq_some_iff, Option.map_eq_some_iff] at hstep
    obtain ⟨after, hafter, after', hafter', rfl⟩ := hstep
    obtain ⟨stepped, later, hnext, huses⟩ := Channel.step_uses hfirst hafter
    obtain ⟨stepped', later', hnext', huses'⟩ := Channel.step_uses hsecond hafter'
    refine ⟨stepped, stepped', hnext, hnext', ?_⟩
    rw [huses, huses']
    exact hdiverged.append later later'

/-- Two runs that differ only in option changes behind the start of an RPC treat that RPC alike
exactly if, side by side, no late read of the options answers differently in them. -/
theorem sameRpc_iff (env : Environment) (channel : Channel) (operation : Operation)
    (first second : List ChannelInput) (finals : Channel × Channel)
    (hsame : first.filter (fun i => !i.isSetChannelOptions) =
      second.filter fun i => !i.isSetChannelOptions)
    (hfirst : Transition.run (Channel.step env) (channel.start operation) first = some finals.1)
    (hsecond : Transition.run (Channel.step env) (channel.start operation) second =
      some finals.2) :
    SameRpc channel.rpcs.length finals ↔
      ∃ pairs, Transition.Paired.firsts pairs = first ∧ Transition.Paired.seconds pairs = second ∧
        (∀ pair ∈ pairs, Transition.Paired.Admitted ChannelInput.isSetChannelOptions pair) ∧
        Transition.Along (pairedStep env) (Unaffected env channel.rpcs.length)
          (channel.start operation, channel.start operation) pairs := by
  have hstarted : SameHandler channel.rpcs.length
      (channel.start operation, channel.start operation) := by
    unfold Channel.start
    split <;> exact ⟨_, by simp; rfl, by simp⟩
  constructor
  · intro hrpc
    obtain ⟨pairs, rfl, rfl, hadmitted⟩ :=
      Transition.exists_paired ChannelInput.isSetChannelOptions first second hsame
    refine ⟨pairs, rfl, rfl, hadmitted, ?_⟩
    have hrun := (Transition.run_pairStep (Channel.step env) ChannelInput.isSetChannelOptions
      (channel.start operation, channel.start operation) finals pairs).mpr
      ⟨hadmitted, hfirst, hsecond⟩
    exact Transition.along_of_run (pairedStep env) (Unaffected env channel.rpcs.length)
      (SameHandler channel.rpcs.length) (DivergedRpc channel.rpcs.length)
      (fun _ _ _ h hunaffected hstep => pairedStep_sameHandler h hunaffected hstep)
      (fun _ _ _ h haffected hstep => pairedStep_diverges h haffected hstep)
      (fun _ _ _ h hstep => pairedStep_divergedRpc h hstep)
      _ finals pairs hstarted hrun fun h => h.not_sameRpc hrpc
  · rintro ⟨pairs, rfl, rfl, hadmitted, halong⟩
    have hrun := (Transition.run_pairStep (Channel.step env) ChannelInput.isSetChannelOptions
      (channel.start operation, channel.start operation) finals pairs).mpr
      ⟨hadmitted, hfirst, hsecond⟩
    exact (Transition.run_invariant_along (pairedStep env) (Unaffected env channel.rpcs.length)
      (SameHandler channel.rpcs.length)
      (fun _ _ _ h hunaffected hstep => pairedStep_sameHandler h hunaffected hstep)
      _ finals pairs hstarted halong hrun).sameRpc

/-- Inputs that only one of the two channels takes are never in the way. -/
theorem along_second (env : Environment) (index : Nat) (channels : Channel × Channel)
    (later : List ChannelInput) :
    Transition.Along (pairedStep env) (Unaffected env index) channels (later.map .second) := by
  induction later generalizing channels with
  | nil => trivial
  | cons input later ih => exact ⟨trivial, fun next _ => ih next⟩

/-- While two channels take the same inputs in the same state, nothing is affected, and nor is it by
what one of them takes afterwards. -/
theorem along_both (env : Environment) (index : Nat) (channel : Channel)
    (inputs later : List ChannelInput) :
    Transition.Along (pairedStep env) (Unaffected env index) (channel, channel)
      (inputs.map .both ++ later.map .second) := by
  induction inputs generalizing channel with
  | nil => exact along_second env index _ later
  | cons input inputs ih =>
    refine ⟨?_, fun next hnext => ?_⟩
    · cases input with
      | rpc i input =>
        intro _ handler _
        cases input with
        | resume reads => exact fun _ _ => rfl
        | headersReceived headers endStream => exact fun _ _ _ _ _ _ _ => rfl
        | _ => trivial
      | _ => trivial
    · obtain ⟨first, hfirst, hnext⟩ := Option.bind_eq_some_iff.mp hnext
      obtain ⟨second, hsecond, rfl⟩ := Option.map_eq_some_iff.mp hnext
      obtain rfl := Option.some.inj (hfirst.symm.trans hsecond)
      exact ih first

/-- The request of the first call of a channel is sent once a connection is there. -/
def requestSent : List ChannelInput :=
  [.rpc 0 .attachStream, .rpc 0 (.sendInitialRequest true), .rpc 0 .sendDATAAccepted,
    .rpc 0 .sendDATAReturned, .rpc 0 (.resume []), .rpc 0 (.resume [])]

/-- A deadline set on the channel while the call waits for its connection. -/
def deadlineWhileWaiting : List ChannelInput :=
  .setChannelOptions { deadlineTimeout := some 1 } :: requestSent

/-- The waiting call gets the deadline that was set after it had started. -/
theorem not_sameRpc_deadlineWhileWaiting :
    ∃ finals : Channel × Channel,
      Transition.run (Channel.step plainEnvironment)
        ((Channel.construct plainEndpoint {}).start plainCall) requestSent = some finals.1 ∧
      Transition.run (Channel.step plainEnvironment)
        ((Channel.construct plainEndpoint {}).start plainCall) deadlineWhileWaiting =
          some finals.2 ∧
      ¬ SameRpc 0 finals := by
  refine ⟨⟨_, _⟩, rfl, rfl, ?_⟩
  rintro ⟨first, second, hfirst, hsecond, -, -, huses⟩
  cases hfirst
  cases hsecond
  exact absurd huses (by decide)

/-- A deadline set on the channel when the request has been sent. -/
def deadlineAfterwards : List ChannelInput :=
  requestSent ++ [.setChannelOptions { deadlineTimeout := some 1 }]

/-- A deadline that is set when the request has been sent does not concern the call. -/
theorem sameRpc_iff_deadlineAfterwards :
    ∃ finals : Channel × Channel,
      Transition.run (Channel.step plainEnvironment)
        ((Channel.construct plainEndpoint {}).start plainCall) requestSent = some finals.1 ∧
      Transition.run (Channel.step plainEnvironment)
        ((Channel.construct plainEndpoint {}).start plainCall) deadlineAfterwards =
          some finals.2 ∧
      SameRpc 0 finals := by
  refine ⟨⟨_, _⟩, rfl, rfl, ?_⟩
  refine (sameRpc_iff plainEnvironment (Channel.construct plainEndpoint {}) plainCall requestSent
    deadlineAfterwards _ rfl rfl rfl).mpr
    ⟨requestSent.map .both ++
      [ChannelInput.setChannelOptions { deadlineTimeout := some 1 }].map .second,
      rfl, rfl, ?_, along_both plainEnvironment _ _ requestSent _⟩
  simp [requestSent, Transition.Paired.Admitted, ChannelInput.isSetChannelOptions]

end QtGrpc.Http2
