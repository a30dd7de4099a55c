import QtGrpc.Protobuf.Binary.WireTypes

/-!
# Where the decoder dereferences its iterator

The self-checking iterator counts the end of its container as a valid position, so that every
reader has to see to it that there are bytes left before it looks at one. The functions here follow
the readers and list the positions at which they look.
-/

namespace QtGrpc.Protobuf.Binary

variable (env : Environment) (S : Schema)

/-- The byte at the position of an iterator, which may be behind the end of the container. -/
def Iterator.deref (it : Iterator) : UInt8 :=
  if it.position < it.container.length then it.container.getD it.position.toNat 0
  else env.beyond (it.position - it.container.length).toNat

/-- The positions of as many bytes from an iterator on. -/
def bytesFrom (it : Iterator) (count : Nat) : List Int :=
  (List.range count).map fun n : Nat => it.position + n

/-- Where the loop of `deserializeVarintCommon` dereferences the iterator. It ends at the latest
where no bytes are left. -/
def varintDerefs : Nat → Iterator → List Int
  | 0, _ => []
  | n + 1, it =>
    if it.bytesLeft = 0 then []
    else it.position :: if continues (it.deref env) then varintDerefs n (it.advance 1) else []

/-- Where the loop of `skipVarint` does. An iterator that has left the container stays where it is. -/
def skipVarintDerefs : Nat → Iterator → List Int
  | 0, _ => []
  | n + 1, it =>
    it.position :: if continues (it.deref env) then skipVarintDerefs n (it.advance 1) else []

/-- Where `deserializeLengthDelimited` does. -/
def lengthDelimitedDerefs (it : Iterator) : List Int :=
  if it.bytesLeft ≠ 0 then
    varintDerefs env it.bytesLeft it ++
      match deserializeVarintCommon env it with
      | (_, none) => []
      | (it, some length) =>
        if it.isValid ∧ length.toNat ≤ it.bytesLeft ∧ length.toNat ≤ maxByteArraySize then
          bytesFrom it length.toNat
        else []
  else []

/-- Where `deserializeBasic` of a fixed-width type does. -/
def fixedDerefs (size : Nat) (it : Iterator) : List Int :=
  if it.bytesLeft < size then [] else bytesFrom it size

/-- Where `deserializeBasic` does. -/
def basicDerefs (k : ScalarKind) (it : Iterator) : List Int :=
  match k.wireType with
  | .varint => varintDerefs env it.bytesLeft it
  | .fixed32 => fixedDerefs 4 it
  | .fixed64 => fixedDerefs 8 it
  | .lengthDelimited => lengthDelimitedDerefs env it

/-- Where the loop of `deserializeList` does. -/
def listLoopDerefs (k : ScalarKind) (lastVarint : Int) : Nat → Iterator → List Int
  | 0, _ => []
  | n + 1, it =>
    if it.position = lastVarint then []
    else basicDerefs env k it ++
      match deserializeBasic env k it with
      | (_, none) => []
      | (it, some _) => listLoopDerefs k lastVarint n it

/-- Where `deserializeList` does. -/
def listDerefs (k : ScalarKind) (it : Iterator) : List Int :=
  varintDerefs env it.bytesLeft it ++
    match deserializeVarintCommon env it with
    | (_, none) => []
    | (it, some count) =>
      if count.toNat > 2 ^ 63 - 1 then []
      else
        let lastVarint := it.advance count.toNat
        if lastVarint.isValid then listLoopDerefs env k lastVarint.position it.bytesLeft it else []

/-- Where `decodeHeader` does. -/
def headerDerefs (it : Iterator) : List Int :=
  if it.bytesLeft = 0 then [] else varintDerefs env it.bytesLeft it

/-- Where `skipField` does. Two more bytes than are left are enough for a `skipVarint` that leaves
the container. -/
def skipDerefs (wireType : WireType) (it : Iterator) : List Int :=
  match wireType with
  | .varint => skipVarintDerefs env (it.bytesLeft + 2) it
  | .fixed32 | .fixed64 => []
  | .lengthDelimited => varintDerefs env it.bytesLeft it

/-- Where `nextFieldIndex` does. The bytes of an unknown field are copied. -/
def nextFieldDerefs : Nat → MessageType → Deserializer → List Int
  | 0, _, _ => []
  | fuel + 1, t, d =>
    if d.it.isValid && d.state.head? != some d.it.position then
      let fieldBegin := d.it
      headerDerefs env d.it ++
        match decodeHeader env d.it with
        | (_, none) => []
        | (it, some (fieldNumber, wireType)) =>
          let d := d.visit t it fieldNumber wireType
          let ordering := S.propertyOrdering t
          match ordering.indexOfFieldNumber fieldNumber with
          | none =>
            skipDerefs env wireType it ++
              match skipField env d fieldBegin with
              | none => []
              | some (d, length) =>
                if length < 0 then []
                else
                  (if length > 0 ∧ d.preserveUnknownFields then bytesFrom fieldBegin length.toNat
                    else []) ++ nextFieldDerefs fuel t d
          | some index =>
            match ordering.fields[index]? with
            | none => []
            | some f =>
              if f.fieldFlags.isMessage || f.fieldFlags.isMap then
                varintDerefs env d.it.bytesLeft d.it
              else []
    else []

/-- Where `deserializeEnum` does. -/
def enumDerefs (f : FieldInfo) (d : Deserializer) : List Int :=
  if f.fieldFlags.repeated then
    match d.wireType with
    | .varint => basicDerefs env .int64 d.it
    | .lengthDelimited => listDerefs env .int64 d.it
    | _ => []
  else basicDerefs env .int64 d.it

/-- Where `deserializeScalarField` does. -/
def scalarDerefs (f : FieldInfo) (d : Deserializer) : List Int :=
  let isNonPacked := d.wireType != .lengthDelimited && f.fieldFlags.repeated
  match integratedWireType f.type isNonPacked with
  | none => []
  | some wireType =>
    if wireType ≠ d.wireType then []
    else
      match f.type with
      | .scalar k => basicDerefs env k d.it
      | .list k =>
        if isNonPacked || k.isLengthDelimited then basicDerefs env k d.it
        else listDerefs env k d.it
      | _ => []

/-- Where a call of the loop dereferences the iterator, apart from nested messages. -/
def callDerefs (c : LoopCall Deserializer) : List Int :=
  nextFieldDerefs env S c.fuel c.type c.state ++
    match c.iteration (format env S) S with
    | none => []
    | some x =>
      if x.field.type.isEnum then enumDerefs env x.field x.state
      else scalarDerefs env x.field x.state

/-- A position of a byte of the container. -/
def InContainer (it : Iterator) (p : Int) : Prop := 0 ≤ p ∧ p < it.container.length

/-- Every byte the decoder looks at lies in the view it was given. -/
def StaysInBounds (s : Serializer) (fuel : Nat) (t : MessageType) (data : Bytes) : Prop :=
  ∀ c, s.Enters env S fuel t data c → ∀ p ∈ callDerefs env S c, 0 ≤ p ∧ p < data.length

/-- The fields a call comes to, in their order. -/
def newVisits (c : LoopCall Deserializer) : List Visit :=
  (nextFieldIndex env S c.fuel c.type c.state c.message).1.visits.drop c.state.visits.length

/-- A varint of a field that is skipped has its last byte in the view. -/
def Visit.Terminated (v : Visit) : Prop := ∃ byte ∈ v.payload.rest, continues byte = false

variable {env S}

/-! ## The readers that ask for the bytes left -/

/-- With bytes left there is one at the position. -/
theorem Iterator.inContainer {it : Iterator} (h : it.bytesLeft ≠ 0) :
    InContainer it it.position := by
  have hvalid := Iterator.isValid_of_bytesLeft h
  have hleft := Iterator.bytesLeft_of_isValid hvalid
  have hrange := it.isValid_iff.mp hvalid
  exact ⟨hrange.1, by omega⟩

/-- What lies in the container for a later iterator lies in it for the earlier one. -/
theorem Reads.inContainer {it it' : Iterator} (h : Reads it it') {p : Int}
    (hp : InContainer it' p) : InContainer it p := by
  unfold InContainer at hp ⊢
  rwa [h.container] at hp

/-- As many bytes as are left lie in the container. -/
theorem bytesFrom_inContainer {it : Iterator} {count : Nat} (h : count ≤ it.bytesLeft) :
    ∀ p ∈ bytesFrom it count, InContainer it p := by
  intro p hp
  obtain ⟨n, hn, rfl⟩ := List.mem_map.mp hp
  have hlt := List.mem_range.mp hn
  have hvalid := @Iterator.isValid_of_bytesLeft it (by omega)
  have hleft := Iterator.bytesLeft_of_isValid hvalid
  have hrange := it.isValid_iff.mp hvalid
  unfold InContainer
  omega

/-- Reading a varint stays in the container. -/
theorem varintDerefs_inContainer (n : Nat) (it : Iterator) :
    ∀ p ∈ varintDerefs env n it, InContainer it p := by
  induction n generalizing it with
  | zero => simp [varintDerefs]
  | succ n ih =>
    intro p hp
    rw [varintDerefs] at hp
    split at hp
    · cases hp
    · rename_i hleft
      rcases List.mem_cons.mp hp with rfl | hp
      · exact Iterator.inContainer hleft
      · split at hp
        · have hrest := ih (it.advance 1) p hp
          unfold InContainer at hrest ⊢
          rwa [Iterator.container_advance] at hrest
        · cases hp

/-- Reading a length-delimited value stays in the container. -/
theorem lengthDelimitedDerefs_inContainer (it : Iterator) :
    ∀ p ∈ lengthDelimitedDerefs env it, InContainer it p := by
  intro p hp
  unfold lengthDelimitedDerefs at hp
  have hread := deserializeVarintCommon_reads env it
  split at hp
  · rcases List.mem_append.mp hp with hp | hp
    · exact varintDerefs_inContainer _ it p hp
    · split at hp
      · cases hp
      · rename_i it' length hvarint
        rw [hvarint] at hread
        split at hp
        · rename_i hfits
          exact hread.inContainer (bytesFrom_inContainer hfits.2.1 p hp)
        · cases hp
  · cases hp

/-- Reading a scalar stays in the container. -/
theorem basicDerefs_inContainer (k : ScalarKind) (it : Iterator) :
    ∀ p ∈ basicDerefs env k it, InContainer it p := by
  intro p hp
  have hfixed (size : Nat) (hp : p ∈ fixedDerefs size it) : InContainer it p := by
    unfold fixedDerefs at hp
    split at hp
    · cases hp
    · exact bytesFrom_inContainer (by omega) p hp
  unfold basicDerefs at hp
  split at hp
  · exact varintDerefs_inContainer _ it p hp
  · exact hfixed 4 hp
  · exact hfixed 8 hp
  · exact lengthDelimitedDerefs_inContainer it p hp

/-- Every turn of the loop over a packed list stays in the container. -/
theorem listLoopDerefs_inContainer (k : ScalarKind) (lastVarint : Int) (n : Nat) (it : Iterator) :
    ∀ p ∈ listLoopDerefs env k lastVarint n it, InContainer it p := by
  induction n generalizing it with
  | zero => simp [listLoopDerefs]
  | succ n ih =>
    intro p hp
    have hread := deserializeBasic_reads env k it
    rw [listLoopDerefs] at hp
    split at hp
    · cases hp
    · rcases List.mem_append.mp hp with hp | hp
      · exact basicDerefs_inContainer k it p hp
      · split at hp
        · cases hp
        · rename_i it' v hbasic
          rw [hbasic] at hread
          exact hread.inContainer (ih it' p hp)

/-- Reading a packed list stays in the container. -/
theorem listDerefs_inContainer (k : ScalarKind) (it : Iterator) :
    ∀ p ∈ listDerefs env k it, InContainer it p := by
  intro p hp
  have hread := deserializeVarintCommon_reads env it
  unfold listDerefs at hp
  rcases List.mem_append.mp hp with hp | hp
  · exact varintDerefs_inContainer _ it p hp
  · split at hp
    · cases hp
    · rename_i it' count hvarint
      rw [hvarint] at hread
      simp only at hp
      split at hp
      · cases hp
      · split at hp
        · exact hread.inContainer (listLoopDerefs_inContainer k _ _ it' p hp)
        · cases hp

/-- Reading an enumerator stays in the container. -/
theorem enumDerefs_inContainer (f : FieldInfo) (d : Deserializer) :
    ∀ p ∈ enumDerefs env f d, InContainer d.it p := by
  intro p hp
  unfold enumDerefs at hp
  split at hp
  · split at hp
    · exact basicDerefs_inContainer .int64 d.it p hp
    · exact listDerefs_inContainer .int64 d.it p hp
    · cases hp
  · exact basicDerefs_inContainer .int64 d.it p hp

/-- Reading a scalar field of any type stays in the container. -/
theorem scalarDerefs_inContainer (f : FieldInfo) (d : Deserializer) :
    ∀ p ∈ scalarDerefs env f d, InContainer d.it p := by
  intro p hp
  unfold scalarDerefs at hp
  simp only at hp
  split at hp
  · cases hp
  · split at hp
    · cases hp
    · split at hp
      · exact basicDerefs_inContainer _ d.it p hp
      · split at hp
        · exact basicDerefs_inContainer _ d.it p hp
        · exact listDerefs_inContainer _ d.it p hp
      · cases hp

/-! ## The one that does not -/

/-- Where a byte follows, the iterator looks at it and moves on to the rest. -/
theorem Iterator.rest_eq_cons {it : Iterator} {byte : UInt8} {rest : Bytes}
    (h : it.rest = byte :: rest) :
    it.bytesLeft ≠ 0 ∧ it.deref env = byte ∧ (it.advance 1).isValid ∧ (it.advance 1).rest = rest := by
  have hleft : it.bytesLeft ≠ 0 := by simp [bytesLeft, h]
  have hvalid := Iterator.isValid_of_bytesLeft hleft
  obtain ⟨hpos, hlt⟩ := Iterator.inContainer hleft
  refine ⟨hleft, ?_, Iterator.isValid_advance (n := 1) hvalid (by omega), ?_⟩
  · rw [Iterator.rest, if_pos hvalid] at h
    have hget : it.container[it.position.toNat]? = some byte := by
      rw [← Nat.add_zero it.position.toNat, ← List.getElem?_drop, h]
      rfl
    rw [deref, if_pos hlt, List.getD, hget]
    rfl
  · have hrest := Iterator.rest_advance (n := 1) hvalid (by omega)
    rw [h] at hrest
    exact hrest

/-- A varint with a last byte in the container is skipped within the container. -/
theorem skipVarintDerefs_inContainer (n : Nat) (it : Iterator)
    (h : ∃ byte ∈ it.rest, continues byte = false) :
    ∀ p ∈ skipVarintDerefs env n it, InContainer it p := by
  induction n generalizing it with
  | zero => simp [skipVarintDerefs]
  | succ n ih =>
    intro p hp
    cases hrest : it.rest with
    | nil => simp [hrest] at h
    | cons byte rest =>
      obtain ⟨hleft, hderef, hvalid, hnext⟩ := @Iterator.rest_eq_cons env _ _ _ hrest
      rw [skipVarintDerefs, hderef] at hp
      rcases List.mem_cons.mp hp with rfl | hp
      · exact Iterator.inContainer hleft
      · split at hp
        · rename_i hmore
          obtain ⟨last, hlast, hends⟩ := h
          rw [hrest] at hlast
          rcases List.mem_cons.mp hlast with rfl | hlast
          · rw [hmore] at hends
            cases hends
          · have hinner := ih (it.advance 1) ⟨last, by rw [hnext]; exact hlast, hends⟩ p hp
            unfold InContainer at hinner ⊢
            rwa [Iterator.container_advance] at hinner
        · cases hp

/-- Without a last byte the end of the container is looked at. -/
theorem mem_skipVarintDerefs_end {it : Iterator} (hvalid : it.isValid)
    (h : ∀ byte ∈ it.rest, continues byte = true) {n : Nat} (hn : it.bytesLeft < n) :
    (it.container.length : Int) ∈ skipVarintDerefs env n it := by
  induction n generalizing it with
  | zero => omega
  | succ n ih =>
    rw [skipVarintDerefs]
    cases hrest : it.rest with
    | nil =>
      have hleft := Iterator.bytesLeft_of_isValid hvalid
      have hzero : it.bytesLeft = 0 := by simp [Iterator.bytesLeft, hrest]
      have hend : it.position = it.container.length := by omega
      rw [hend]
      exact List.mem_cons_self
    | cons byte rest =>
      obtain ⟨hleft, hderef, hvalid', hnext⟩ := @Iterator.rest_eq_cons env _ _ _ hrest
      rw [hrest] at h
      have hmore := h byte List.mem_cons_self
      have hfewer : (it.advance 1).bytesLeft + 1 = it.bytesLeft := by
        simp [Iterator.bytesLeft, hnext, hrest]
      have hinner := @ih (it.advance 1) hvalid'
        (fun b hb => h b (List.mem_cons_of_mem _ (by rwa [hnext] at hb))) (by omega)
      rw [Iterator.container_advance] at hinner
      rw [hderef, if_pos hmore]
      exact List.mem_cons_of_mem _ hinner

/-! ## The fields of a call -/

/-- The container does not change, whatever happens to the iterator. -/
def SameContainer (d d' : Deserializer) : Prop := d'.it.container = d.it.container

/-- Skipping a payload stays in the same container. -/
theorem container_skipPayload {w : WireType} {it it' : Iterator}
    (h : skipPayload env w it = some it') : it'.container = it.container := by
  unfold skipPayload at h
  split at h
  · obtain ⟨n, -, rfl⟩ := Option.map_eq_some_iff.mp h
    exact it.container_advance _
  · cases h
    exact it.container_advance _
  · cases h
    exact it.container_advance _
  · cases h
    have hread := deserializeVarintCommon_reads env it
    unfold skipLengthDelimited
    split
    · rename_i it' hvarint
      rw [hvarint] at hread
      rw [Iterator.container_advance, hread.container]
    · rename_i it' length hvarint
      rw [hvarint] at hread
      rw [Iterator.container_advance, hread.container]

/-- Looking for the next field stays in the same container. -/
theorem nextFieldIndex_sameContainer (fuel : Nat) (t : MessageType) (d : Deserializer)
    (m : Message) : SameContainer d (nextFieldIndex env S fuel t d m).1 := by
  induction fuel generalizing d m with
  | zero => rfl
  | succ fuel ih =>
    have hstep := nextFieldIndex_step env S fuel t d m
    generalize nextFieldIndex env S (fuel + 1) t d m = r at hstep ⊢
    have hheader {it : Iterator} {header : Option (Nat × WireType)}
        (h : decodeHeader env d.it = (it, header)) : it.container = d.it.container := by
      have hread := decodeHeader_reads env d.it
      rw [h] at hread
      exact hread.container
    cases hstep with
    | ended h =>
      unfold SameContainer Deserializer.leaveFrame
      split <;> rfl
    | badHeader it h hdecode => exact hheader hdecode
    | stuck it n w h hdecode => exact hheader hdecode
    | overrun it it' n w h hdecode hindex hskip =>
      exact (container_skipPayload hskip).trans (hheader hdecode)
    | backwards it it' n w h hdecode hindex hskip =>
      exact (container_skipPayload hskip).trans (hheader hdecode)
    | skipped it it' n w m' h hdecode hindex hskip =>
      exact (ih _ m').trans ((container_skipPayload hskip).trans (hheader hdecode))
    | noField it n w i h hdecode => exact hheader hdecode
    | known it n w i f h hdecode =>
      exact (enterField_consumes env f i (d.visit t it n w)).1.container.trans (hheader hdecode)

/-- Every operation of the binary format stays in the same container. -/
theorem format_sameContainer : (format env S).Within SameContainer where
  refl _ := rfl
  trans h h' := h'.trans h
  nextFieldIndex := nextFieldIndex_sameContainer
  deserializeEnum f d v := (deserializeEnum_consumes env f d v).reads.container
  deserializeScalarField f d v := (deserializeScalarField_consumes env S f d v).reads.container
  setError _ _ _ _ := rfl
  interceptMessageField := by simp [format]

/-- The decoder looks at the header of a field in any case. -/
theorem headerDerefs_inContainer (it : Iterator) :
    ∀ p ∈ headerDerefs env it, InContainer it p := by
  intro p hp
  unfold headerDerefs at hp
  split at hp
  · cases hp
  · exact varintDerefs_inContainer _ it p hp

/-- What an iteration of `nextFieldIndex` looks at behind the header of a field. -/
theorem nextFieldDerefs_succ {fuel : Nat} {t : MessageType} {d : Deserializer} (h : d.inFrame) :
    nextFieldDerefs env S (fuel + 1) t d = headerDerefs env d.it ++
      match decodeHeader env d.it with
      | (_, none) => []
      | (it, some (n, w)) =>
        match (S.propertyOrdering t).indexOfFieldNumber n with
        | none =>
          skipDerefs env w it ++
            match skipField env (d.visit t it n w) d.it with
            | none => []
            | some (d', length) =>
              if length < 0 then []
              else
                (if length > 0 ∧ d'.preserveUnknownFields then bytesFrom d.it length.toNat
                  else []) ++ nextFieldDerefs env S fuel t d'
        | some i =>
          match (S.propertyOrdering t).fields[i]? with
          | none => []
          | some f =>
            if f.fieldFlags.isMessage || f.fieldFlags.isMap then varintDerefs env it.bytesLeft it
            else [] := by
  have hopen : (d.it.isValid && d.state.head? != some d.it.position) = true := by
    simpa [Deserializer.inFrame] using h
  rw [nextFieldDerefs, if_pos hopen]
  rfl

/-- The varints of the unknown fields among these have their last bytes in the view. -/
def SkipsTerminated (S : Schema) (visits : List Visit) : Prop :=
  ∀ v ∈ visits, v.IsUnknown S → v.wireType = .varint → v.Terminated

/-- Skipping an unknown field stays in the container where the skip is one that terminates. -/
theorem skipDerefs_inContainer {t : MessageType} {d : Deserializer} {it : Iterator} {n : Nat}
    {w : WireType} (hread : Reads d.it it)
    (hindex : (S.propertyOrdering t).indexOfFieldNumber n = none)
    (hskips : SkipsTerminated S [⟨t, d.it, it, n, w⟩]) :
    ∀ p ∈ skipDerefs env w it, InContainer d.it p := by
  intro p hp
  refine hread.inContainer ?_
  unfold skipDerefs at hp
  split at hp
  · exact skipVarintDerefs_inContainer _ it (hskips _ List.mem_cons_self hindex rfl) p hp
  · cases hp
  · cases hp
  · exact varintDerefs_inContainer _ it p hp

/-- The iteration of an unknown field looks at its header and its payload, and copies the field and
goes on if it was skipped. -/
theorem nextFieldDerefs_unknown {fuel : Nat} {t : MessageType} {d : Deserializer} {it : Iterator}
    {n : Nat} {w : WireType} (h : d.inFrame) (hheader : decodeHeader env d.it = (it, some (n, w)))
    (hindex : (S.propertyOrdering t).indexOfFieldNumber n = none) :
    ∃ behind, nextFieldDerefs env S (fuel + 1) t d =
        headerDerefs env d.it ++ (skipDerefs env w it ++ behind) ∧
      ∀ p ∈ behind, ∃ it', skipPayload env w it = some it' ∧ it'.isValid ∧
        d.it.position ≤ it'.position ∧
        (p ∈ bytesFrom d.it (it'.position - d.it.position).toNat ∨
          p ∈ nextFieldDerefs env S fuel t { d.visit t it n w with it := it' }) := by
  rw [nextFieldDerefs_succ h, hheader]
  simp only [hindex, skipField, Deserializer.visit]
  cases hskip : skipPayload env w it with
  | none => exact ⟨[], rfl, by simp⟩
  | some it' =>
    simp only [Option.map_some]
    cases hvalid : it'.isValid with
    | false => exact ⟨[], by simp, by simp⟩
    | true =>
      by_cases hback : it'.position - d.it.position < 0
      · exact ⟨[], by simp [hback], by simp⟩
      · refine ⟨_, by simp only [if_true, hback, if_false]; rfl, fun p hp => ?_⟩
        refine ⟨it', rfl, hvalid, by omega, ?_⟩
        rcases List.mem_append.mp hp with hp | hp
        · split at hp
          · exact .inl hp
          · cases hp
        · exact .inr hp

/-- A call stays within the container if the varints it skips do. -/
theorem nextFieldDerefs_inContainer (fuel : Nat) (t : MessageType) (d : Deserializer) (m : Message)
    {visits : List Visit} (hvisits : (nextFieldIndex env S fuel t d m).1.visits = d.visits ++ visits)
    (hskips : SkipsTerminated S visits) :
    ∀ p ∈ nextFieldDerefs env S fuel t d, InContainer d.it p := by
  induction fuel generalizing d m visits with
  | zero => simp [nextFieldDerefs]
  | succ fuel ih =>
    have hstep := nextFieldIndex_step env S fuel t d m
    generalize nextFieldIndex env S (fuel + 1) t d m = r at hstep hvisits
    intro p hp
    have hcontainer {it : Iterator} {header : Option (Nat × WireType)}
        (hheader : decodeHeader env d.it = (it, header)) : Reads d.it it := by
      have hread := decodeHeader_reads env d.it
      rwa [hheader] at hread
    -- only where a field was skipped there is something to look at behind its payload
    have hunknown (it : Iterator) (n : Nat) (w : WireType) (h : d.inFrame)
        (hheader : decodeHeader env d.it = (it, some (n, w)))
        (hindex : (S.propertyOrdering t).indexOfFieldNumber n = none)
        (hskips : SkipsTerminated S [⟨t, d.it, it, n, w⟩]) (p : Int)
        (hp : p ∈ nextFieldDerefs env S (fuel + 1) t d)
        (hbehind : ∀ it', skipPayload env w it = some it' → it'.isValid →
          d.it.position ≤ it'.position →
            p ∈ nextFieldDerefs env S fuel t { d.visit t it n w with it := it' } →
              InContainer d.it p) : InContainer d.it p := by
      obtain ⟨behind, heq, hmem⟩ := @nextFieldDerefs_unknown env S fuel _ _ _ _ _ h hheader hindex
      rw [heq] at hp
      rcases List.mem_append.mp hp with hp | hp
      · exact headerDerefs_inContainer d.it p hp
      · rcases List.mem_append.mp hp with hp | hp
        · exact skipDerefs_inContainer (hcontainer hheader) hindex hskips p hp
        · obtain ⟨it', hskip, hvalid, hforward, hp | hp⟩ := hmem p hp
          · refine bytesFrom_inContainer ?_ p hp
            have hleft := Iterator.bytesLeft_of_isValid h.1
            have hrange := it'.isValid_iff.mp hvalid
            rw [container_skipPayload hskip, (hcontainer hheader).container] at hrange
            omega
          · exact hbehind it' hskip hvalid hforward hp
    cases hstep with
    | ended h =>
      have hclosed : ¬(d.it.isValid && d.state.head? != some d.it.position) = true := by
        simpa [Deserializer.inFrame] using h
      rw [nextFieldDerefs, if_neg hclosed] at hp
      cases hp
    | badHeader it h hheader =>
      rw [nextFieldDerefs_succ h, hheader] at hp
      exact headerDerefs_inContainer d.it p (by simpa using hp)
    | stuck it n w h hheader hindex hskip =>
      have hone : [⟨t, d.it, it, n, w⟩] = visits := List.append_cancel_left hvisits
      subst hone
      exact hunknown it n w h hheader hindex hskips p hp fun it' hskip' => by
        rw [hskip] at hskip'
        cases hskip'
    | overrun it it' n w h hheader hindex hskip hvalid =>
      have hone : [⟨t, d.it, it, n, w⟩] = visits := List.append_cancel_left hvisits
      subst hone
      refine hunknown it n w h hheader hindex hskips p hp fun it'' hskip' hvalid' => ?_
      rw [hskip] at hskip'
      cases hskip'
      rw [hvalid] at hvalid'
      cases hvalid'
    | backwards it it' n w h hheader hindex hskip hvalid hback =>
      have hone : [⟨t, d.it, it, n, w⟩] = visits := List.append_cancel_left hvisits
      subst hone
      refine hunknown it n w h hheader hindex hskips p hp fun it'' hskip' _ hforward => ?_
      rw [hskip] at hskip'
      cases hskip'
      omega
    | skipped it it' n w m' h hheader hindex hskip hvalid hforward hm =>
      obtain ⟨-, rest, hrest⟩ :=
        nextFieldIndex_extends env S fuel t { d.visit t it n w with it := it' } m'
      have hall : (⟨t, d.it, it, n, w⟩ :: rest) = visits := by
        rw [hrest] at hvisits
        exact List.append_cancel_left ((List.append_assoc _ _ _).symm.trans hvisits)
      subst hall
      have hfirst : SkipsTerminated S [⟨t, d.it, it, n, w⟩] := by
        intro v hv
        exact hskips v (by simpa using .inl (by simpa using hv))
      refine hunknown it n w h hheader hindex hfirst p hp fun it'' hskip' _ _ hmem => ?_
      rw [hskip] at hskip'
      cases hskip'
      have hinner := ih _ m' hrest (fun v hv => hskips v (List.mem_cons_of_mem _ hv)) p hmem
      unfold InContainer at hinner ⊢
      rwa [container_skipPayload hskip, (hcontainer hheader).container] at hinner
    | noField it n w i h hheader hindex hfield =>
      rw [nextFieldDerefs_succ h, hheader] at hp
      simp only [hindex, hfield] at hp
      exact headerDerefs_inContainer d.it p (by simpa using hp)
    | known it n w i f h hheader hindex hfield =>
      rw [nextFieldDerefs_succ h, hheader] at hp
      simp only [hindex, hfield] at hp
      rcases List.mem_append.mp hp with hp | hp
      · exact headerDerefs_inContainer d.it p hp
      · split at hp
        · exact (hcontainer hheader).inContainer (varintDerefs_inContainer _ it p hp)
        · cases hp

/-- Where a varint is skipped that has no last byte, a call looks at the end of the container. -/
theorem length_mem_nextFieldDerefs (fuel : Nat) (t : MessageType) (d : Deserializer) (m : Message)
    {visits : List Visit} (hvisits : (nextFieldIndex env S fuel t d m).1.visits = d.visits ++ visits)
    {v : Visit} (hv : v ∈ visits) (hunknown : v.IsUnknown S) (hwire : v.wireType = .varint)
    (hends : ¬v.Terminated) : (d.it.container.length : Int) ∈ nextFieldDerefs env S fuel t d := by
  induction fuel generalizing d m visits with
  | zero =>
    have hnone : visits = [] := by simpa [nextFieldIndex] using hvisits
    rw [hnone] at hv
    cases hv
  | succ fuel ih =>
    have hstep := nextFieldIndex_step env S fuel t d m
    generalize nextFieldIndex env S (fuel + 1) t d m = r at hstep hvisits
    have hread {it : Iterator} {header : Option (Nat × WireType)}
        (hheader : decodeHeader env d.it = (it, header)) : Reads d.it it := by
      have hread := decodeHeader_reads env d.it
      rwa [hheader] at hread
    have hhere (it : Iterator) (n : Nat) (w : WireType) (h : d.inFrame)
        (hheader : decodeHeader env d.it = (it, some (n, w)))
        (hindex : (S.propertyOrdering t).indexOfFieldNumber n = none)
        (hv : v = ⟨t, d.it, it, n, w⟩) :
        (d.it.container.length : Int) ∈ nextFieldDerefs env S (fuel + 1) t d := by
      subst hv
      obtain ⟨behind, heq, -⟩ := @nextFieldDerefs_unknown env S fuel _ _ _ _ _ h hheader hindex
      obtain rfl : w = .varint := hwire
      have hmore : ∀ byte ∈ it.rest, continues byte = true := by
        intro byte hbyte
        by_contra hnot
        exact hends ⟨byte, hbyte, by simpa using hnot⟩
      have hend := @mem_skipVarintDerefs_end env it ((hread hheader).isValid h.1) hmore
        (it.bytesLeft + 2) (by omega)
      rw [heq, ← (hread hheader).container]
      exact List.mem_append_right _ (List.mem_append_left _ hend)
    have hnil (hvisits : d.visits = d.visits ++ visits) : False := by
      have hnone : visits = [] := by simpa using hvisits
      rw [hnone] at hv
      cases hv
    have hone (x : Visit) (hvisits : d.visits ++ [x] = d.visits ++ visits) : v = x := by
      rw [← List.append_cancel_left hvisits] at hv
      simpa using hv
    cases hstep with
    | ended h =>
      refine (hnil ?_).elim
      unfold Deserializer.leaveFrame at hvisits
      split at hvisits <;> exact hvisits
    | badHeader it => exact (hnil hvisits).elim
    | stuck it n w h hheader hindex => exact hhere it n w h hheader hindex (hone _ hvisits)
    | overrun it it' n w h hheader hindex => exact hhere it n w h hheader hindex (hone _ hvisits)
    | backwards it it' n w h hheader hindex => exact hhere it n w h hheader hindex (hone _ hvisits)
    | skipped it it' n w m' h hheader hindex hskip hvalid hforward hm =>
      obtain ⟨-, rest, hrest⟩ :=
        nextFieldIndex_extends env S fuel t { d.visit t it n w with it := it' } m'
      have hall : (⟨t, d.it, it, n, w⟩ :: rest) = visits := by
        rw [hrest] at hvisits
        exact List.append_cancel_left ((List.append_assoc _ _ _).symm.trans hvisits)
      rw [← hall] at hv
      rcases List.mem_cons.mp hv with hv | hv
      · exact hhere it n w h hheader hindex hv
      · have hinner := ih _ m' hrest hv
        have hcontainer : it'.container = d.it.container :=
          (container_skipPayload hskip).trans (hread hheader).container
        rw [← hcontainer, nextFieldDerefs_succ h, hheader]
        have hback : ¬it'.position - d.it.position < 0 := by omega
        simp only [hindex, skipField, Deserializer.visit, hskip, Option.map_some, hvalid, if_true,
          if_neg hback]
        exact List.mem_append_right _ (List.mem_append_right _ (List.mem_append_right _ hinner))
    | noField it n w i h hheader hindex hfield =>
      have hx := hone _ hvisits
      subst hx
      have hsome : (S.propertyOrdering t).indexOfFieldNumber n = none := hunknown
      rw [hindex] at hsome
      cases hsome
    | known it n w i f h hheader hindex hfield =>
      have hx := hone ⟨t, d.it, it, n, w⟩
        ((enterField_consumes env f i (d.visit t it n w)).2.1.symm.trans hvisits)
      subst hx
      have hsome : (S.propertyOrdering t).indexOfFieldNumber n = none := hunknown
      rw [hindex] at hsome
      cases hsome

/-- A call of the function adds its own visits to those before. -/
theorem newVisits_eq (c : LoopCall Deserializer) :
    (nextFieldIndex env S c.fuel c.type c.state c.message).1.visits =
      c.state.visits ++ newVisits env S c := by
  obtain ⟨-, visits, hvisits⟩ := nextFieldIndex_extends env S c.fuel c.type c.state c.message
  rw [newVisits, hvisits, List.drop_left]

/-- Every loop call that is entered from the top level reads the input. -/
theorem Serializer.Enters.container {s : Serializer} {fuel : Nat} {t : MessageType} {data : Bytes}
    {c : LoopCall Deserializer} (h : s.Enters env S fuel t data c) : c.state.it.container = data :=
  LoopCall.Enters.state_within format_sameContainer h.2

/-- The decoder stays within the view it was given if and only if every varint that it skips has its
last byte there. -/
theorem staysInBounds_iff (env : Environment) (S : Schema) (s : Serializer) (fuel : Nat)
    (t : MessageType) (data : Bytes) :
    StaysInBounds env S s fuel t data ↔
      ∀ c v, s.Enters env S fuel t data c → v ∈ newVisits env S c → v.IsUnknown S →
        v.wireType = .varint → v.Terminated := by
  constructor
  · intro h c v hc hv hunknown hwire
    by_contra hends
    have hend := length_mem_nextFieldDerefs c.fuel c.type c.state c.message (newVisits_eq c) hv
      hunknown hwire hends
    rw [hc.container] at hend
    have hbounds := h c hc data.length (List.mem_append_left _ hend)
    omega
  · intro h c hc p hp
    suffices hinside : InContainer c.state.it p by
      unfold InContainer at hinside
      rwa [hc.container] at hinside
    rcases List.mem_append.mp hp with hp | hp
    · exact nextFieldDerefs_inContainer c.fuel c.type c.state c.message (newVisits_eq c)
        (fun v hv => h c v hc hv) p hp
    · cases hx : c.iteration (format env S) S with
      | none => simp [hx] at hp
      | some x =>
        simp only [hx] at hp
        obtain ⟨hfuel, m, hnext, -⟩ := LoopCall.iteration_eq_some hx
        have hcontainer : x.state.it.container = c.state.it.container := by
          have hkept := @nextFieldIndex_sameContainer env S (x.fuel + 1) c.type
            c.state c.message
          rwa [show nextFieldIndex env S (x.fuel + 1) c.type c.state c.message = _ from hnext]
            at hkept
        have hinner : InContainer x.state.it p := by
          split at hp
          · exact enumDerefs_inContainer x.field x.state p hp
          · exact scalarDerefs_inContainer x.field x.state p hp
        unfold InContainer at hinner ⊢
        rwa [hcontainer] at hinner

/-- The header of an unknown varint field and nothing behind it. -/
theorem not_staysInBounds_headerOnly :
    ¬StaysInBounds nullTerminated emptySchema .initial 2 (.named 0) [0x08] := by
  intro h
  have hbounds := h _ ⟨by decide, .refl _⟩ 1 (by decide)
  exact absurd hbounds.2 (by decide)

end QtGrpc.Protobuf.Binary
