import QtGrpc.Library.Signed
import QtGrpc.Protobuf.SerializerBase
import QtGrpc.Protobuf.Binary.Progress
import QtGrpc.Protobuf.Json.Value

/-!
# Timestamps

The conversions between a `Timestamp` and a `QDateTime`, which the generated class makes as well as
the JSON handler of the type. Both count the milliseconds since the epoch in signed 64-bit
integers. The texts of dates and times, which Qt's core library prints and parses, are parameters.
-/

namespace QtGrpc.WellKnown

open QtGrpc.Protobuf

/-- The fields of a `Timestamp`, which are those of a `Duration` too. -/
def secondsField : FieldInfo := { fieldNumber := 1, jsonName := "seconds", type := .scalar .int64 }

def nanosField : FieldInfo := { fieldNumber := 2, jsonName := "nanos", type := .scalar .int32 }

/-- `google.protobuf.Timestamp`. -/
def timestampDescriptor : MessageDescriptor where
  messageFullName := "google.protobuf.Timestamp"
  fields := [secondsField, nanosField]
  numbers_nodup := by decide
  numbers_bound := by decide
  presence_fits := by decide

/-- A program whose only message type is the timestamp. -/
def timestampSchema : Schema where
  message _ := timestampDescriptor
  enumKeys _ := []
  findHandler _ := none
  typeName _ := ""

/-- `message->property("seconds")`, if it can be converted to a `qint64`. -/
def secondsProperty (m : Message) : Option (BitVec 64) :=
  match m.messageProperty 0 secondsField with
  | .scalar ⟨.int64, seconds⟩ => some seconds
  | _ => none

/-- `message->property("nanos")`, if it can be converted to a `qint32`. -/
def nanosProperty (m : Message) : Option (BitVec 32) :=
  match m.messageProperty 1 nanosField with
  | .scalar ⟨.int32, nanos⟩ => some nanos
  | _ => none

/-- `message->setProperty` of the seconds and of the nanoseconds. -/
def setProperties (S : Schema) (m : Message) (seconds : BitVec 64) (nanos : BitVec 32) : Message :=
  let m := (S.setMessageProperty m 0 secondsField (.scalar ⟨.int64, seconds⟩)).1
  (S.setMessageProperty m 1 nanosField (.scalar ⟨.int32, nanos⟩)).1

/-- The seconds that are set are read again. -/
@[simp] theorem secondsProperty_setProperties (S : Schema) (m : Message) (seconds : BitVec 64)
    (nanos : BitVec 32) : secondsProperty (setProperties S m seconds nanos) = some seconds := rfl

/-- The nanoseconds that are set are read again. -/
@[simp] theorem nanosProperty_setProperties (S : Schema) (m : Message) (seconds : BitVec 64)
    (nanos : BitVec 32) : nanosProperty (setProperties S m seconds nanos) = some nanos := rfl

/-- A valid `QDateTime`, given by its milliseconds since the epoch. -/
abbrev QDateTime := BitVec 64

/-- What the JSON handler uses of Qt's core library. -/
structure DateTimes where
  /-- `QDateTime::toString` in UTC and in the format `Qt::ISODateWithMs`. -/
  toString : QDateTime → String
  /-- `QDateTime::fromString` of this format, if the date and time are valid. -/
  fromString : String → Option QDateTime
  /-- `QString::toUpper`. -/
  toUpper : String → String

/-- `Timestamp`. -/
structure Timestamp where
  seconds : BitVec 64
  nanos : BitVec 32
deriving DecidableEq, Repr

namespace Timestamp

/-- The seconds and nanoseconds that are read from a message; those that cannot be read are 0. -/
def ofMessage (m : Message) : Timestamp where
  seconds := (secondsProperty m).getD 0
  nanos := (nanosProperty m).getD 0

/-- The division of the milliseconds and the remainder in nanoseconds. Both are truncated. -/
def ofMSecs (msecs : BitVec 64) : Timestamp where
  seconds := msecs.sdiv 1000
  nanos := BitVec.setWidth 32 (msecs.srem 1000 * 1000000)

/-- `secs * 1000 + nanos / 1000'000`; there is no result if the arithmetic overflows. -/
def toMSecs (ts : Timestamp) : Option (BitVec 64) :=
  (Signed.checkedMul ts.seconds 1000).bind fun msecs =>
    Signed.checkedAdd msecs (BitVec.signExtend 64 (ts.nanos.sdiv 1000000))

/-- `Timestamp::fromDateTime`. -/
def fromDateTime (dateTime : QDateTime) : Timestamp := ofMSecs dateTime

/-- `Timestamp::toDateTime`. -/
def toDateTime (ts : Timestamp) : Option QDateTime := ts.toMSecs

end Timestamp

/-- The pattern `.+([\+\-]\d{2}:\d{2}|Z)$` of a text that ends with an offset. A line feed behind the
end is not looked at. -/
def timestampEnding (text : String) : Bool :=
  let backwards := match text.toList.reverse with
    | '\n' :: rest => rest
    | chars => chars
  match backwards with
  | 'Z' :: c :: _ => c ≠ '\n'
  | m₂ :: m₁ :: ':' :: h₂ :: h₁ :: sign :: c :: _ =>
    (sign = '+' || sign = '-') && [h₁, h₂, m₁, m₂].all Char.isDigit && c ≠ '\n'
  | _ => false

/-- `serializeProtobufWellKnownTimestamp`; there is no result if the arithmetic overflows. -/
def serializeProtobufWellKnownTimestamp (dt : DateTimes) (m : Message) : Option JsonValue :=
  (Timestamp.ofMessage m).toMSecs.map fun dateTime => .string (dt.toString dateTime)

/-- `deserializeProtobufWellKnownTimestamp`. -/
def deserializeProtobufWellKnownTimestamp (S : Schema) (dt : DateTimes) (m : Message) :
    JsonValue → Message × Bool
  | .string tsString =>
    if dt.toUpper tsString ≠ tsString then (m, false)
    else if ' ' ∈ tsString.toList then (m, false)
    else if !timestampEnding tsString then (m, false)
    else match dt.fromString tsString with
    | none => (m, false)
    | some dateTime =>
      let ts := Timestamp.ofMSecs dateTime
      (setProperties S m ts.seconds ts.nanos, true)
  | _ => (m, false)

namespace Timestamp

/-- The nanoseconds are those behind the second, also before the epoch. -/
def Normalised (ts : Timestamp) : Prop := 0 ≤ ts.nanos.toInt ∧ ts.nanos.toInt ≤ 999999999

/-- The timestamp and the date and time are the same instant, in nanoseconds. -/
def Denotes (ts : Timestamp) (dateTime : QDateTime) : Prop :=
  ts.seconds.toInt * 1000000000 + ts.nanos.toInt = dateTime.toInt * 1000000

/-- The instant is not before the epoch, or a whole second. -/
def Truncates (dateTime : QDateTime) : Prop := 0 ≤ dateTime.toInt ∨ (1000 : Int) ∣ dateTime.toInt

/-- A timestamp that is set is read again. -/
@[simp] theorem ofMessage_setProperties (S : Schema) (m : Message) (ts : Timestamp) :
    ofMessage (setProperties S m ts.seconds ts.nanos) = ts := rfl

/-- The seconds are the milliseconds divided by 1000 towards zero. -/
theorem toInt_seconds_ofMSecs (msecs : BitVec 64) :
    (ofMSecs msecs).seconds.toInt = msecs.toInt.tdiv 1000 := by
  have hne : msecs ≠ BitVec.intMin 64 ∨ (1000 : BitVec 64) ≠ -1#64 := .inr (by decide)
  have h := BitVec.toInt_sdiv_of_ne_or_ne msecs 1000 hne
  exact h

/-- The nanoseconds are the remainder with the sign of the milliseconds. -/
theorem toInt_nanos_ofMSecs (msecs : BitVec 64) :
    (ofMSecs msecs).nanos.toInt = msecs.toInt.tmod 1000 * 1000000 := by
  have hrem : (msecs.srem 1000).toInt = msecs.toInt.tmod 1000 := BitVec.toInt_srem msecs 1000
  have hfactor : (1000000 : BitVec 64).toInt = 1000000 := by decide
  have hlow := Int.lt_tmod_of_pos msecs.toInt (by decide : (0 : Int) < 1000)
  have hhigh := Int.tmod_lt_of_pos msecs.toInt (by decide : (0 : Int) < 1000)
  have hproduct : (msecs.srem 1000 * 1000000).toInt = msecs.toInt.tmod 1000 * 1000000 := by
    rw [Signed.toInt_mul_of_inRange, hrem, hfactor]
    rw [hrem, hfactor]
    constructor <;> omega
  rw [← hproduct]
  refine Signed.toInt_setWidth_of_inRange _ (by decide) (by decide) ?_
  rw [hproduct]
  constructor <;> omega

/-- The two parts of an instant make up the instant. -/
theorem denotes_ofMSecs (msecs : BitVec 64) : (ofMSecs msecs).Denotes msecs := by
  have hparts := Int.mul_tdiv_add_tmod msecs.toInt 1000
  rw [Denotes, toInt_seconds_ofMSecs, toInt_nanos_ofMSecs]
  omega

/-- A truncated remainder is negative before the epoch. -/
theorem normalised_ofMSecs (msecs : BitVec 64) : (ofMSecs msecs).Normalised ↔ Truncates msecs := by
  rw [Normalised, toInt_nanos_ofMSecs, Truncates]
  have hhigh := Int.tmod_lt_of_pos msecs.toInt (by decide : (0 : Int) < 1000)
  constructor
  · rintro ⟨hlow, -⟩
    by_cases hsign : 0 ≤ msecs.toInt
    · exact .inl hsign
    · have hneg := Int.tmod_nonneg 1000 (by omega : 0 ≤ -msecs.toInt)
      rw [Int.neg_tmod] at hneg
      exact .inr (Int.dvd_of_tmod_eq_zero (by omega))
  · rintro (hsign | hwhole)
    · have hrem := Int.tmod_nonneg 1000 hsign
      omega
    · have hrem := Int.tmod_eq_zero_of_dvd hwhole
      omega

/-- No two normalised timestamps are the same instant. -/
theorem eq_of_denotes {ts ts' : Timestamp} {dateTime : QDateTime} (hts : ts.Normalised)
    (hts' : ts'.Normalised) (h : ts.Denotes dateTime) (h' : ts'.Denotes dateTime) : ts = ts' := by
  obtain ⟨seconds, nanos⟩ := ts
  obtain ⟨seconds', nanos'⟩ := ts'
  obtain ⟨hlow, hhigh⟩ := hts
  obtain ⟨hlow', hhigh'⟩ := hts'
  simp only [Denotes] at *
  have hseconds : seconds = seconds' := BitVec.eq_of_toInt_eq (by omega)
  have hnanos : nanos = nanos' := BitVec.eq_of_toInt_eq (by omega)
  rw [hseconds, hnanos]

/-- A timestamp is what its instant is divided into exactly if that is normalised. -/
theorem ofMSecs_eq_iff {ts : Timestamp} {dateTime : QDateTime} (hts : ts.Normalised)
    (h : ts.Denotes dateTime) : ofMSecs dateTime = ts ↔ Truncates dateTime := by
  rw [← normalised_ofMSecs]
  constructor
  · intro heq
    rwa [heq]
  · intro hnormalised
    exact eq_of_denotes hnormalised hts (denotes_ofMSecs dateTime) h

/-- The nanoseconds are cut to milliseconds towards zero. -/
theorem toInt_sdiv_nanos (nanos : BitVec 32) :
    (BitVec.signExtend 64 (nanos.sdiv 1000000)).toInt = nanos.toInt.tdiv 1000000 := by
  rw [BitVec.toInt_signExtend_of_le (by decide)]
  exact BitVec.toInt_sdiv_of_ne_or_ne nanos 1000000 (.inr (by decide))

/-- The milliseconds of a timestamp are exact if there are any, and there are if neither operation
overflows. -/
theorem toMSecs_eq_some_iff (ts : Timestamp) (msecs : BitVec 64) :
    ts.toMSecs = some msecs ↔ Signed.InRange 64 (ts.seconds.toInt * 1000) ∧
      msecs.toInt = ts.seconds.toInt * 1000 + ts.nanos.toInt.tdiv 1000000 := by
  have hfactor : (1000 : BitVec 64).toInt = 1000 := by decide
  unfold toMSecs
  rw [Option.bind_eq_some_iff]
  constructor
  · rintro ⟨product, hproduct, hsum⟩
    rw [Signed.checkedMul_eq_some_iff, hfactor] at hproduct
    rw [Signed.checkedAdd_eq_some_iff, hproduct, toInt_sdiv_nanos] at hsum
    exact ⟨hproduct ▸ Signed.inRange_toInt product, hsum⟩
  · rintro ⟨hrange, hsum⟩
    have hsome : (Signed.checkedMul ts.seconds 1000).isSome :=
      (Signed.isSome_checkedMul ts.seconds 1000).mpr (by rwa [hfactor])
    obtain ⟨product, hproduct⟩ := Option.isSome_iff_exists.mp hsome
    have hexact := (Signed.checkedMul_eq_some_iff _ _ _).mp hproduct
    refine ⟨product, hproduct, (Signed.checkedAdd_eq_some_iff _ _ _).mpr ?_⟩
    rw [hexact, hfactor, toInt_sdiv_nanos, hsum]

/-- A normalised timestamp of an instant that is truncated exactly is converted to this instant. -/
theorem toMSecs_of_denotes {ts : Timestamp} {dateTime : QDateTime} (hts : ts.Normalised)
    (h : ts.Denotes dateTime) (htruncates : Truncates dateTime) : ts.toMSecs = some dateTime := by
  obtain ⟨hlow, hhigh⟩ := hts
  obtain ⟨hmin, hmax⟩ := Signed.inRange_toInt dateTime
  have hdiv : ts.nanos.toInt.tdiv 1000000 = ts.nanos.toInt / 1000000 :=
    Int.tdiv_eq_ediv_of_nonneg hlow
  simp only [Denotes, Truncates] at *
  rw [toMSecs_eq_some_iff, hdiv]
  refine ⟨⟨?_, ?_⟩, by omega⟩ <;> omega

/-- The milliseconds of a normalised timestamp are those of its instant, if there are any. -/
theorem eq_of_toMSecs {ts : Timestamp} {dateTime : QDateTime} {msecs : BitVec 64}
    (hts : ts.Normalised) (h : ts.Denotes dateTime) (hmsecs : ts.toMSecs = some msecs) :
    msecs = dateTime := by
  obtain ⟨-, hsum⟩ := (toMSecs_eq_some_iff ts msecs).mp hmsecs
  rw [Int.tdiv_eq_ediv_of_nonneg hts.1] at hsum
  simp only [Denotes] at h
  exact BitVec.eq_of_toInt_eq (by omega)

/-- Both conversions, one after the other. -/
theorem map_ofMSecs_toMSecs_iff {ts : Timestamp} {dateTime : QDateTime} (hts : ts.Normalised)
    (h : ts.Denotes dateTime) : ts.toMSecs.map ofMSecs = some ts ↔ Truncates dateTime := by
  constructor
  · intro hmap
    obtain ⟨msecs, hmsecs, hts'⟩ := Option.map_eq_some_iff.mp hmap
    rw [eq_of_toMSecs hts h hmsecs] at hts'
    exact (ofMSecs_eq_iff hts h).mp hts'
  · intro htruncates
    rw [toMSecs_of_denotes hts h htruncates, Option.map_some, (ofMSecs_eq_iff hts h).mpr htruncates]

end Timestamp

/-! ## JSON -/

/-- Instants that can be represented are printed and parsed exactly to the millisecond: as texts in
upper case, without blanks and with an offset at the end. -/
structure DateTimes.Exact (dt : DateTimes) (representable : QDateTime → Prop) : Prop where
  fromString_toString : ∀ dateTime, representable dateTime →
    dt.fromString (dt.toString dateTime) = some dateTime
  toUpper_toString : ∀ dateTime, representable dateTime →
    dt.toUpper (dt.toString dateTime) = dt.toString dateTime
  not_contains_blank : ∀ dateTime, representable dateTime →
    ' ' ∉ (dt.toString dateTime).toList
  timestampEnding_toString : ∀ dateTime, representable dateTime →
    timestampEnding (dt.toString dateTime) = true

namespace Timestamp

variable {S : Schema} {dt : DateTimes}

/-- A text is accepted only for an instant, and then the message holds what that is divided into. -/
theorem deserialize_accepted {m m' : Message} {text : String} {dateTime : QDateTime}
    (htext : dt.fromString text = some dateTime)
    (h : deserializeProtobufWellKnownTimestamp S dt m (.string text) = (m', true)) :
    ofMessage m' = ofMSecs dateTime := by
  unfold deserializeProtobufWellKnownTimestamp at h
  simp only [htext] at h
  split at h
  · cases h
  · split at h
    · cases h
    · split at h
      · cases h
      · cases h
        rfl

/-- What is printed for an instant that can be represented is accepted. -/
theorem deserialize_toString {representable : QDateTime → Prop} (hexact : dt.Exact representable)
    (m : Message) {dateTime : QDateTime} (h : representable dateTime) :
    (deserializeProtobufWellKnownTimestamp S dt m (.string (dt.toString dateTime))).2 = true := by
  unfold deserializeProtobufWellKnownTimestamp
  simp [hexact.toUpper_toString dateTime h, hexact.not_contains_blank dateTime h,
    hexact.timestampEnding_toString dateTime h, hexact.fromString_toString dateTime h]

/-- A timestamp survives its text exactly if its instant is truncated exactly. -/
theorem survivesJson_iff {representable : QDateTime → Prop} (hexact : dt.Exact representable)
    (m m' : Message) {dateTime : QDateTime} (h : representable dateTime)
    (hnormalised : (ofMessage m).Normalised) (hdenotes : (ofMessage m).Denotes dateTime) :
    (∃ json m'', serializeProtobufWellKnownTimestamp dt m = some json ∧
      deserializeProtobufWellKnownTimestamp S dt m' json = (m'', true) ∧
      ofMessage m'' = ofMessage m) ↔ Truncates dateTime := by
  have hparsed := hexact.fromString_toString dateTime h
  constructor
  · rintro ⟨json, m'', hserialized, haccepted, heq⟩
    obtain ⟨msecs, hmsecs, rfl⟩ := Option.map_eq_some_iff.mp hserialized
    obtain rfl := eq_of_toMSecs hnormalised hdenotes hmsecs
    rw [deserialize_accepted hparsed haccepted] at heq
    exact (ofMSecs_eq_iff hnormalised hdenotes).mp heq
  · intro htruncates
    have haccepted := deserialize_toString (S := S) hexact m' h
    refine ⟨.string (dt.toString dateTime), _, ?_, Prod.ext rfl haccepted, ?_⟩
    · unfold serializeProtobufWellKnownTimestamp
      rw [toMSecs_of_denotes hnormalised hdenotes htruncates, Option.map_some]
    · rw [deserialize_accepted hparsed (Prod.ext rfl haccepted)]
      exact (ofMSecs_eq_iff hnormalised hdenotes).mpr htruncates

/-- The generated class and the JSON handler make normalised timestamps of an instant, and leave
normalised timestamps of it unchanged, exactly if the instant is not before the epoch or is a
whole second. -/
theorem normalises_iff (S : Schema) (dt : DateTimes) (representable : QDateTime → Prop)
    (hexact : dt.Exact representable) (dateTime : QDateTime) :
    ((fromDateTime dateTime).Normalised ∧ (fromDateTime dateTime).Denotes dateTime ↔
      Truncates dateTime) ∧
    (∀ m m' text, dt.fromString text = some dateTime →
      deserializeProtobufWellKnownTimestamp S dt m (.string text) = (m', true) →
      ((ofMessage m').Normalised ∧ (ofMessage m').Denotes dateTime ↔ Truncates dateTime)) ∧
    (∀ ts : Timestamp, ts.Normalised → ts.Denotes dateTime →
      (ts.toDateTime.map fromDateTime = some ts ↔ Truncates dateTime)) ∧
    (representable dateTime → ∀ m m', (ofMessage m).Normalised → (ofMessage m).Denotes dateTime →
      ((∃ json m'', serializeProtobufWellKnownTimestamp dt m = some json ∧
        deserializeProtobufWellKnownTimestamp S dt m' json = (m'', true) ∧
        ofMessage m'' = ofMessage m) ↔ Truncates dateTime)) := by
  have hparts : (ofMSecs dateTime).Normalised ∧ (ofMSecs dateTime).Denotes dateTime ↔
      Truncates dateTime := by
    rw [normalised_ofMSecs]
    exact and_iff_left (denotes_ofMSecs dateTime)
  refine ⟨hparts, ?_, ?_, ?_⟩
  · intro m m' text htext haccepted
    rw [deserialize_accepted htext haccepted]
    exact hparts
  · intro ts hts hdenotes
    exact map_ofMSecs_toMSecs_iff hts hdenotes
  · intro h m m' hts hdenotes
    exact survivesJson_iff hexact m m' h hts hdenotes

/-- The texts of two instants, half a second before and half a second after the epoch. -/
def aroundEpoch : DateTimes where
  toString dateTime :=
    if dateTime = -500 then "1969-12-31T23:59:59.500Z"
    else if dateTime = 500 then "1970-01-01T00:00:00.500Z"
    else ""
  fromString text :=
    if text = "1969-12-31T23:59:59.500Z" then some (-500)
    else if text = "1970-01-01T00:00:00.500Z" then some 500
    else none
  toUpper text := String.ofList (text.toList.map Char.toUpper)

/-- The sample conversion is exact half a second before and after the epoch. -/
theorem aroundEpoch_exact : aroundEpoch.Exact fun dateTime => dateTime = -500 ∨ dateTime = 500 where
  fromString_toString := by rintro _ (rfl | rfl) <;> decide
  toUpper_toString := by rintro _ (rfl | rfl) <;> decide
  not_contains_blank := by rintro _ (rfl | rfl) <;> decide
  timestampEnding_toString := by rintro _ (rfl | rfl) <;> decide

/-- A message of this content. -/
def message (ts : Timestamp) : Message :=
  setProperties timestampSchema (timestampSchema.defaultMessage (.named 0)) ts.seconds ts.nanos

/-- A timestamp after the epoch is given back by JSON as it is. -/
theorem normalises_afterEpoch :
    ∃ json m, serializeProtobufWellKnownTimestamp aroundEpoch (message ⟨0, 500000000⟩) = some json ∧
      deserializeProtobufWellKnownTimestamp timestampSchema aroundEpoch (message ⟨0, 0⟩) json =
        (m, true) ∧ ofMessage m = ofMessage (message ⟨0, 500000000⟩) :=
  ((normalises_iff timestampSchema aroundEpoch _ aroundEpoch_exact 500).2.2.2 (.inr rfl)
    (message ⟨0, 500000000⟩) (message ⟨0, 0⟩) ⟨by decide, by decide⟩
    (by unfold Denotes; decide)).mpr (.inl (by decide))

/-- Half a second before the epoch, the nanoseconds are negative however the timestamp is made, and
a timestamp that was normalised is replaced by another. -/
theorem not_normalises_beforeEpoch :
    ¬(fromDateTime (-500)).Normalised ∧
      ofMessage (deserializeProtobufWellKnownTimestamp timestampSchema aroundEpoch (message ⟨0, 0⟩)
        (.string "1969-12-31T23:59:59.500Z")).1 = ⟨0, -500000000⟩ ∧
      (toDateTime ⟨-1, 500000000⟩).map fromDateTime = some ⟨0, -500000000⟩ := by
  refine ⟨?_, by decide, by decide⟩
  rintro ⟨hlow, -⟩
  revert hlow
  decide

/-! ## Overflow -/

/-- The whole seconds are within 64 bits of milliseconds, and so is the instant, of which the rest of
a millisecond is dropped. -/
def Fits (ts : Timestamp) : Prop :=
  -9223372036854775 ≤ ts.seconds.toInt ∧ ts.seconds.toInt ≤ 9223372036854775 ∧
    -9223372036854775809000000 < ts.seconds.toInt * 1000000000 + ts.nanos.toInt ∧
    ts.seconds.toInt * 1000000000 + ts.nanos.toInt < 9223372036854775808000000

/-- The milliseconds are the sum that was to be computed. -/
def Exactly (ts : Timestamp) (msecs : BitVec 64) : Prop :=
  msecs.toInt = ts.seconds.toInt * 1000 + ts.nanos.toInt.tdiv 1000000

/-- There are exact milliseconds, without an overflow on the way to them, exactly if they fit. -/
theorem toMSecs_exactly_iff (ts : Timestamp) :
    (∃ msecs, ts.toMSecs = some msecs ∧ ts.Exactly msecs) ↔ ts.Fits := by
  have hparts := Int.mul_tdiv_add_tmod ts.nanos.toInt 1000000
  have hlow := Int.lt_tmod_of_pos ts.nanos.toInt (by decide : (0 : Int) < 1000000)
  have hhigh := Int.tmod_lt_of_pos ts.nanos.toInt (by decide : (0 : Int) < 1000000)
  constructor
  · rintro ⟨msecs, hmsecs, hexactly⟩
    obtain ⟨⟨hmin, hmax⟩, -⟩ := (toMSecs_eq_some_iff ts msecs).mp hmsecs
    obtain ⟨hmin', hmax'⟩ := Signed.inRange_toInt msecs
    simp only [Exactly] at hexactly
    refine ⟨?_, ?_, ?_, ?_⟩ <;> omega
  · rintro ⟨hmin, hmax, hfirst, hlast⟩
    have hproduct : Signed.InRange 64 (ts.seconds.toInt * 1000) := by
      constructor <;> omega
    have hsum : Signed.InRange 64 (ts.seconds.toInt * 1000 + ts.nanos.toInt.tdiv 1000000) := by
      rcases Int.le_total 0 ts.nanos.toInt with hsign | hsign
      · have hrem := Int.tmod_nonneg 1000000 hsign
        constructor <;> omega
      · have hrem := Int.tmod_nonneg 1000000 (by omega : 0 ≤ -ts.nanos.toInt)
        rw [Int.neg_tmod] at hrem
        constructor <;> omega
    have hmsecs := Signed.toInt_ofInt_of_inRange (by decide) hsum
    exact ⟨_, (toMSecs_eq_some_iff ts _).mpr ⟨hproduct, hmsecs⟩, hmsecs⟩

/-- `toDateTime` and the JSON handler, neither of which refuses a value, compute the milliseconds of a
timestamp without an overflow exactly if they fit. -/
theorem converts_iff (dt : DateTimes) (m : Message) :
    ((∃ dateTime, (ofMessage m).toDateTime = some dateTime ∧ (ofMessage m).Exactly dateTime) ↔
      (ofMessage m).Fits) ∧
    ((∃ dateTime, serializeProtobufWellKnownTimestamp dt m = some (.string (dt.toString dateTime)) ∧
      (ofMessage m).Exactly dateTime) ↔ (ofMessage m).Fits) := by
  refine ⟨toMSecs_exactly_iff (ofMessage m), ?_⟩
  rw [← toMSecs_exactly_iff]
  constructor
  · rintro ⟨dateTime, hserialized, -⟩
    obtain ⟨msecs, hmsecs, -⟩ := Option.map_eq_some_iff.mp hserialized
    exact ⟨msecs, hmsecs, ((toMSecs_eq_some_iff _ _).mp hmsecs).2⟩
  · rintro ⟨msecs, hmsecs, hexactly⟩
    refine ⟨msecs, ?_, hexactly⟩
    unfold serializeProtobufWellKnownTimestamp
    rw [hmsecs, Option.map_some]

/-- The decoder accepts a timestamp of 2^63 - 1 seconds, and neither conversion can multiply them. -/
theorem not_converts_decoded :
    (Binary.Serializer.deserialize Binary.nullTerminated timestampSchema 8 .initial (.named 0)
        [0x08, 0xFF, 0xFF, 0xFF, 0xFF, 0xFF, 0xFF, 0xFF, 0xFF, 0x7F]).2.2 = .returned true ∧
      ofMessage (Binary.Serializer.deserialize Binary.nullTerminated timestampSchema 8 .initial
        (.named 0) [0x08, 0xFF, 0xFF, 0xFF, 0xFF, 0xFF, 0xFF, 0xFF, 0xFF, 0x7F]).2.1 =
          ⟨9223372036854775807, 0⟩ ∧
      toDateTime ⟨9223372036854775807, 0⟩ = none ∧
      ∀ dt m, ofMessage m = ⟨9223372036854775807, 0⟩ →
        serializeProtobufWellKnownTimestamp dt m = none := by
  have hoverflow : toMSecs ⟨9223372036854775807, 0⟩ = none := by decide
  refine ⟨by decide, by decide, hoverflow, ?_⟩
  intro dt m hm
  rw [serializeProtobufWellKnownTimestamp, hm, hoverflow, Option.map_none]

end Timestamp

end QtGrpc.WellKnown
