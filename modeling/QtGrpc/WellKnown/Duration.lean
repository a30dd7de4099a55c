import QtGrpc.Library.Decimal
import QtGrpc.WellKnown.Timestamp

/-!
# Durations

The JSON handler of `Duration`, which writes a duration as a decimal number of seconds with an `s`
behind it. The sign in front of the number is that of the seconds and of the nanoseconds.
-/

namespace QtGrpc.WellKnown

open QtGrpc.Protobuf Decimal

namespace Duration

def SecondsRange : Int := 315576000000

def NanosRange : Int := 999999999

/-- `checkDurationRange`. -/
def checkDurationRange (seconds : BitVec 64) (nanos : BitVec 32) : Bool :=
  if seconds.toInt > SecondsRange || seconds.toInt < -SecondsRange then false
  else if nanos.toInt > NanosRange || nanos.toInt < -NanosRange then false
  else true

/-- `checkSignMatch`. -/
def checkSignMatch (seconds : BitVec 64) (nanos : BitVec 32) : Bool :=
  !(seconds != 0 && nanos != 0 && decide ((seconds ^^^ nanos.signExtend 64).toInt < 0))

/-- `Duration::isValid`. -/
def isValid (seconds : BitVec 64) (nanos : BitVec 32) : Bool :=
  checkDurationRange seconds nanos && checkSignMatch seconds nanos

/-- `QString::number`. -/
def number (n : Int) : List Char :=
  if n < 0 then '-' :: Nat.toDigits 10 n.natAbs else Nat.toDigits 10 n.natAbs

/-- The loop over the multipliers, from `10 ^ i` on, and the number behind it: a zero is appended for
each digit in front of the nanoseconds, until the multiplier divides them. -/
def fraction (nanos : Nat) : Nat → List Char
  | 0 => Nat.toDigits 10 nanos
  | i + 1 =>
    if nanos % 10 ^ (i + 1) ≠ 0 then
      (if nanos / 10 ^ (i + 1) = 0 then ['0'] else []) ++ fraction nanos i
    else Nat.toDigits 10 (nanos / 10 ^ (i + 1))

/-- The text of seconds and nanoseconds that are valid. -/
def text (seconds nanos : Int) : List Char :=
  (if nanos < 0 ∧ seconds = 0 then ['-'] else []) ++ number seconds ++
    (if nanos ≠ 0 then '.' :: fraction nanos.natAbs 8 else []) ++ ['s']

/-- The pattern `^(-?)(\d{1,12})(\.(\d{1,9}))?s$` with its captures. Its end is also found in front of
a line feed that ends the text. -/
def matchDuration (text : List Char) : Option Numeral :=
  match readNumeral text with
  | some (d, rest) =>
    if d.whole.length ≤ 12 ∧ d.fraction.length ≤ 9 ∧ (rest = ['s'] ∨ rest = ['s', '\n']) then some d
    else none
  | none => none

/-- The captured numbers, the nanoseconds multiplied by the power of ten that their digits leave out,
and both with the sign. -/
def captured (d : Numeral) : BitVec 64 × BitVec 32 :=
  let seconds := BitVec.ofNat 64 (value d.whole)
  let nanos := BitVec.ofNat 32 (value d.fraction)
  let nanos := if nanos ≠ 0 then nanos * BitVec.ofNat 32 (10 ^ (9 - d.fraction.length)) else nanos
  if d.negative then (seconds * -1, nanos * -1) else (seconds, nanos)

end Duration

/-- `serializeProtobufWellKnownDuration`; the value of an invalid duration is undefined. -/
def serializeProtobufWellKnownDuration (m : Message) : Option JsonValue :=
  match secondsProperty m, nanosProperty m with
  | some seconds, some nanos =>
    if Duration.isValid seconds nanos then
      some (.string (String.ofList (Duration.text seconds.toInt nanos.toInt)))
    else none
  | _, _ => none

/-- `deserializeProtobufWellKnownDuration`. -/
def deserializeProtobufWellKnownDuration (S : Schema) (m : Message) : JsonValue → Message × Bool
  | .string valueString =>
    match Duration.matchDuration valueString.toList with
    | none => (m, false)
    | some d =>
      if !Duration.isValid (BitVec.ofNat 64 (value d.whole)) (BitVec.ofNat 32 (value d.fraction)) then
        (m, false)
      else (setProperties S m (Duration.captured d).1 (Duration.captured d).2, true)
  | _ => (m, false)

namespace Duration

/-- The seconds and the nanoseconds are in range and not of opposite signs. -/
def Valid (seconds nanos : Int) : Prop :=
  -SecondsRange ≤ seconds ∧ seconds ≤ SecondsRange ∧ -NanosRange ≤ nanos ∧ nanos ≤ NanosRange ∧
    (0 ≤ seconds ∧ 0 ≤ nanos ∨ seconds ≤ 0 ∧ nanos ≤ 0)

/-- The exclusive or is negative exactly when one of the two is. -/
theorem toInt_xor_neg {w : Nat} (a b : BitVec w) :
    (a ^^^ b).toInt < 0 ↔ (a.toInt < 0 ↔ 0 ≤ b.toInt) := by
  have hxor := BitVec.msb_xor (x := a) (y := b)
  simp only [BitVec.msb_eq_toInt] at hxor
  by_cases ha : a.toInt < 0 <;> by_cases hb : b.toInt < 0 <;> simp_all <;> omega

/-- The check bounds the seconds and the nanoseconds on both sides. -/
theorem checkDurationRange_iff (seconds : BitVec 64) (nanos : BitVec 32) :
    checkDurationRange seconds nanos ↔ -SecondsRange ≤ seconds.toInt ∧
      seconds.toInt ≤ SecondsRange ∧ -NanosRange ≤ nanos.toInt ∧ nanos.toInt ≤ NanosRange := by
  simp only [checkDurationRange, Bool.or_eq_true, decide_eq_true_eq]
  split
  · simp
    omega
  · split <;> simp <;> omega

/-- The check asks for seconds and nanoseconds of no different sign. -/
theorem checkSignMatch_iff (seconds : BitVec 64) (nanos : BitVec 32) :
    checkSignMatch seconds nanos ↔ 0 ≤ seconds.toInt ∧ 0 ≤ nanos.toInt ∨
      seconds.toInt ≤ 0 ∧ nanos.toInt ≤ 0 := by
  have hseconds : seconds = 0 ↔ seconds.toInt = 0 :=
    ⟨fun h => by rw [h]; rfl, fun h => BitVec.eq_of_toInt_eq h⟩
  have hnanos : nanos = 0 ↔ nanos.toInt = 0 :=
    ⟨fun h => by rw [h]; rfl, fun h => BitVec.eq_of_toInt_eq h⟩
  have hsign := toInt_xor_neg seconds (nanos.signExtend 64)
  rw [BitVec.toInt_signExtend_of_le (by decide)] at hsign
  simp only [checkSignMatch, Bool.not_eq_true', Bool.and_eq_false_iff, bne_eq_false_iff_eq,
    decide_eq_false_iff_not, hseconds, hnanos, hsign]
  omega

/-- The checks of the code admit exactly the valid durations. -/
theorem isValid_iff (seconds : BitVec 64) (nanos : BitVec 32) :
    isValid seconds nanos ↔ Valid seconds.toInt nanos.toInt := by
  rw [isValid, Bool.and_eq_true, checkDurationRange_iff, checkSignMatch_iff, Valid]
  tauto

/-! ## The fraction -/

/-- The loop ends at the largest power of ten that divides the nanoseconds; with the zeros in front,
the digits go down to this power. -/
theorem fraction_spec (nanos i : Nat) :
    (∀ c ∈ fraction nanos i, c.isDigit) ∧
    ∃ j ≤ i, 10 ^ j ∣ nanos ∧ (j < i → ¬10 ^ (j + 1) ∣ nanos) ∧
      value (fraction nanos i) = nanos / 10 ^ j ∧
      (fraction nanos i).length = max (i + 1 - j) (Nat.toDigits 10 (nanos / 10 ^ j)).length := by
  induction i with
  | zero =>
    refine ⟨?_, 0, le_rfl, by simp, by simp, by simp [fraction], ?_⟩
    · intro c hc
      exact Nat.isDigit_of_mem_toDigits (by decide) (by decide) hc
    · have hlength := Nat.length_toDigits_pos (b := 10) (n := nanos)
      simp only [fraction, pow_zero, Nat.div_one]
      omega
  | succ i ih =>
    obtain ⟨hdigits, j, hj, hdvd, hnext, hvalue, hlength⟩ := ih
    rw [fraction]
    by_cases hdvd' : 10 ^ (i + 1) ∣ nanos
    · rw [if_neg (by simp [Nat.mod_eq_zero_of_dvd hdvd'])]
      refine ⟨?_, i + 1, le_rfl, hdvd', by simp, by simp, ?_⟩
      · intro c hc
        exact Nat.isDigit_of_mem_toDigits (by decide) (by decide) hc
      · have hlength := Nat.length_toDigits_pos (b := 10) (n := nanos / 10 ^ (i + 1))
        omega
    · rw [if_pos fun h => hdvd' (Nat.dvd_of_mod_eq_zero h)]
      have hnext' : j < i + 1 → ¬10 ^ (j + 1) ∣ nanos := by
        intro _
        rcases Nat.lt_or_ge j i with hlt | hge
        · exact hnext hlt
        · rwa [show j = i by omega]
      have hpow : 10 ^ (i + 1) = 10 ^ j * 10 ^ (i + 1 - j) := by
        rw [← pow_add]
        congr 1
        omega
      by_cases hsmall : nanos < 10 ^ (i + 1)
      · -- the digits of the quotient do not reach this power, and a zero stands in for it
        have hquotient : nanos / 10 ^ j < 10 ^ (i + 1 - j) :=
          Nat.div_lt_of_lt_mul (by rwa [← hpow])
        have hshort := (Nat.length_toDigits_le_iff (by decide : 1 < 10) (by omega)).mpr hquotient
        rw [if_pos (Nat.div_eq_of_lt hsmall)]
        refine ⟨?_, j, by omega, hdvd, hnext', by simp [hvalue], ?_⟩
        · simpa using hdigits
        · simp only [List.singleton_append, List.length_cons, hlength]
          omega
      · have hquotient : ¬nanos / 10 ^ j < 10 ^ (i + 1 - j) := by
          rw [Nat.div_lt_iff_lt_mul (by positivity), Nat.mul_comm, ← hpow]
          exact hsmall
        have hlong := mt (Nat.length_toDigits_le_iff (by decide : 1 < 10) (by omega)).mp hquotient
        rw [if_neg (Nat.div_pos (by omega) (by positivity)).ne']
        refine ⟨hdigits, j, by omega, hdvd, hnext', hvalue, ?_⟩
        rw [List.nil_append, hlength]
        omega

/-- Nanoseconds below one second are printed with nine digits but for the zeros at the end. -/
theorem fraction_nine {nanos : Nat} (hpos : 0 < nanos) (hbound : nanos < 10 ^ 9) :
    (∀ c ∈ fraction nanos 8, c.isDigit) ∧ (fraction nanos 8).length ≤ 9 ∧
      value (fraction nanos 8) * 10 ^ (9 - (fraction nanos 8).length) = nanos ∧
      (fraction nanos 8).getLast? ≠ some '0' := by
  obtain ⟨hdigits, j, hj, hdvd, hnext, hvalue, hlength⟩ := fraction_spec nanos 8
  have hpow : 10 ^ 9 = 10 ^ j * 10 ^ (9 - j) := by
    rw [← pow_add]
    congr 1
    omega
  have hquotient : nanos / 10 ^ j < 10 ^ (9 - j) := Nat.div_lt_of_lt_mul (by rwa [← hpow])
  have hshort := (Nat.length_toDigits_le_iff (by decide : 1 < 10) (by omega)).mpr hquotient
  have hnine : (fraction nanos 8).length = 9 - j := by omega
  refine ⟨hdigits, by omega, ?_, ?_⟩
  · rw [hnine, hvalue, show 9 - (9 - j) = j by omega, Nat.div_mul_cancel hdvd]
  · intro hzero
    -- a zero at the end would mean that a larger power divides the nanoseconds
    obtain ⟨l, hl⟩ := List.getLast?_eq_some_iff.mp hzero
    rw [hl, value_concat_zero] at hvalue
    have hmore : 10 ^ (j + 1) ∣ nanos := by
      rw [← Nat.div_mul_cancel hdvd, ← hvalue, pow_succ]
      exact ⟨value l, by ring⟩
    rcases Nat.lt_or_ge j 8 with hlt | hge
    · exact hnext hlt hmore
    · obtain rfl : j = 8 := by omega
      exact absurd (Nat.le_of_dvd hpos hmore) (by omega)

/-! ## The numeral of a duration -/

/-- A numeral is the decimal value of a duration. -/
def IsValue (d : Numeral) (seconds nanos : Int) : Prop := d.value = seconds + nanos / 10 ^ 9

/-- In nanoseconds. -/
theorem isValue_iff_scaled {d : Numeral} (h : d.fraction.length ≤ 9) (seconds nanos : Int) :
    IsValue d seconds nanos ↔ d.scaled 9 = seconds * 10 ^ 9 + nanos := by
  rw [IsValue, d.value_eq_scaled h, div_eq_iff (by positivity), add_mul,
    div_mul_cancel₀ _ (by positivity)]
  exact_mod_cast Iff.rfl

/-- The printed nanoseconds are digits. -/
theorem isDigit_of_mem_printed (nanos : Int) :
    ∀ c ∈ if nanos = 0 then [] else fraction nanos.natAbs 8, c.isDigit := by
  split
  · simp
  · exact (fraction_spec nanos.natAbs 8).1

/-- What is printed of a duration in front of the `s`. -/
def numeral (seconds nanos : Int) : Numeral where
  negative := decide (seconds < 0 ∨ nanos < 0)
  whole := Nat.toDigits 10 seconds.natAbs
  fraction := if nanos = 0 then [] else fraction nanos.natAbs 8
  whole_digits _ hc := Nat.isDigit_of_mem_toDigits (by decide) (by decide) hc
  fraction_digits := isDigit_of_mem_printed nanos
  whole_ne_nil := Nat.toDigits_ne_nil

/-- A printed fraction is not empty. -/
theorem fraction_ne_nil (nanos i : Nat) : fraction nanos i ≠ [] := by
  obtain ⟨-, j, -, -, -, -, hlength⟩ := fraction_spec nanos i
  have hpos := Nat.length_toDigits_pos (b := 10) (n := nanos / 10 ^ j)
  intro hnil
  rw [hnil, List.length_nil] at hlength
  omega

/-- The sign of the seconds, or of the nanoseconds if there are no seconds, is that of both. -/
theorem text_eq {seconds nanos : Int} (h : Valid seconds nanos) :
    text seconds nanos = (numeral seconds nanos).text ++ ['s'] := by
  obtain ⟨-, -, -, -, hsigns⟩ := h
  have hfraction : (if nanos ≠ 0 then '.' :: fraction nanos.natAbs 8 else []) =
      if (numeral seconds nanos).fraction = [] then [] else '.' :: (numeral seconds nanos).fraction := by
    by_cases hnanos : nanos = 0
    · simp [numeral, hnanos]
    · simp [numeral, hnanos, fraction_ne_nil]
  have hsign : (if nanos < 0 ∧ seconds = 0 then ['-'] else []) ++ number seconds =
      (if (numeral seconds nanos).negative then ['-'] else []) ++ (numeral seconds nanos).whole := by
    simp only [numeral, number, decide_eq_true_eq]
    by_cases hseconds : seconds < 0
    · rw [if_neg (by omega), if_pos hseconds, if_pos (.inl hseconds)]
      rfl
    · by_cases hnanos : nanos < 0
      · rw [if_pos ⟨hnanos, by omega⟩, if_neg hseconds, if_pos (.inr hnanos)]
      · rw [if_neg (by omega), if_neg hseconds, if_neg (by omega)]
  rw [text, hsign, hfraction, Numeral.text]

/-- The text of a valid duration has at most 12 digits, then at most nine of which the last is not
zero, and is its decimal value. -/
theorem numeral_spec {seconds nanos : Int} (h : Valid seconds nanos) :
    (numeral seconds nanos).whole.length ≤ 12 ∧ (numeral seconds nanos).fraction.length ≤ 9 ∧
      (numeral seconds nanos).fraction.getLast? ≠ some '0' ∧
      IsValue (numeral seconds nanos) seconds nanos := by
  obtain ⟨hmin, hmax, hmin', hmax', hsigns⟩ := h
  simp only [SecondsRange, NanosRange] at hmin hmax hmin' hmax'
  have hwhole : (numeral seconds nanos).whole.length ≤ 12 :=
    (Nat.length_toDigits_le_iff (by decide) (by decide)).mpr (by omega)
  have hfraction : (numeral seconds nanos).fraction.length ≤ 9 ∧
      value (numeral seconds nanos).fraction *
        10 ^ (9 - (numeral seconds nanos).fraction.length) = nanos.natAbs ∧
      (numeral seconds nanos).fraction.getLast? ≠ some '0' := by
    by_cases hnanos : nanos = 0
    · simp [numeral, hnanos]
    · obtain ⟨-, hlength, hvalue, hlast⟩ :=
        @fraction_nine nanos.natAbs (by omega) (by omega)
      simp only [numeral, hnanos, if_false]
      exact ⟨hlength, hvalue, hlast⟩
  obtain ⟨hlength, hvalue, hlast⟩ := hfraction
  refine ⟨hwhole, hlength, hlast, (isValue_iff_scaled hlength seconds nanos).mpr ?_⟩
  have hvalue' : (value (numeral seconds nanos).fraction *
      10 ^ (9 - (numeral seconds nanos).fraction.length) : Int) = nanos.natAbs := by
    exact_mod_cast hvalue
  have hseconds : value (numeral seconds nanos).whole = seconds.natAbs := value_toDigits _
  rw [Numeral.scaled, hvalue', hseconds]
  simp only [numeral, decide_eq_true_eq]
  split <;> omega

/-! ## Reading a duration -/

/-- The pattern matches exactly the numerals with at most 12 digits and at most nine behind the point,
with an `s` behind them and perhaps a line feed. -/
theorem matchDuration_eq_some_iff (text : List Char) (d : Numeral) :
    matchDuration text = some d ↔ (d.whole.length ≤ 12 ∧ d.fraction.length ≤ 9) ∧
      (text = d.text ++ ['s'] ∨ text = d.text ++ ['s', '\n']) := by
  unfold matchDuration
  constructor
  · intro h
    split at h
    · rename_i d' rest hread
      split at h
      · rename_i hshape
        obtain rfl := Option.some.inj h
        have htext := readNumeral_sound hread
        obtain ⟨hwhole, hfraction, rfl | rfl⟩ := hshape
        · exact ⟨⟨hwhole, hfraction⟩, .inl htext⟩
        · exact ⟨⟨hwhole, hfraction⟩, .inr htext⟩
      · cases h
    · cases h
  · rintro ⟨⟨hwhole, hfraction⟩, rfl | rfl⟩
    · rw [readNumeral_text d (by simp)]
      simp [hwhole, hfraction]
    · rw [readNumeral_text d (by simp)]
      simp [hwhole, hfraction]

/-- The captured numbers with the sign of the numeral. -/
theorem captured_eq (d : Numeral) :
    captured d =
      (BitVec.ofInt 64 ((if d.negative then -1 else 1) * (value d.whole : Int)),
        BitVec.ofInt 32 ((if d.negative then -1 else 1) *
          (value d.fraction * 10 ^ (9 - d.fraction.length) : Nat))) := by
  have hscaled : (if BitVec.ofNat 32 (value d.fraction) ≠ 0 then
      BitVec.ofNat 32 (value d.fraction) * BitVec.ofNat 32 (10 ^ (9 - d.fraction.length))
      else BitVec.ofNat 32 (value d.fraction)) =
        BitVec.ofNat 32 (value d.fraction * 10 ^ (9 - d.fraction.length)) := by
    rw [BitVec.ofNat_mul]
    split
    · rfl
    · rename_i hzero
      rw [not_not.mp hzero, zero_mul]
  have hminus : (-1 : BitVec 64) = BitVec.ofInt 64 (-1) ∧ (-1 : BitVec 32) = BitVec.ofInt 32 (-1) :=
    ⟨by decide, by decide⟩
  unfold captured
  simp only [hscaled]
  cases d.negative
  · simp only [Bool.false_eq_true, if_false, one_mul, BitVec.ofInt_natCast]
  · simp only [if_true, hminus.1, hminus.2, ← BitVec.ofInt_natCast, ← BitVec.ofInt_mul]
    simp [mul_comm]

/-- The captured numbers are small, so that no operation on them overflows. -/
theorem toInt_captured {d : Numeral} (hwhole : d.whole.length ≤ 12)
    (hfraction : d.fraction.length ≤ 9) :
    (BitVec.ofNat 64 (value d.whole)).toInt = value d.whole ∧
      (BitVec.ofNat 32 (value d.fraction)).toInt = value d.fraction ∧
      (captured d).1.toInt = (if d.negative then -1 else 1) * (value d.whole : Int) ∧
      (captured d).2.toInt = (if d.negative then -1 else 1) *
        ((value d.fraction * 10 ^ (9 - d.fraction.length) : Nat) : Int) := by
  have hwholeLt : value d.whole < 10 ^ 12 :=
    (value_lt d.whole_digits).trans_le (Nat.pow_le_pow_right (by decide) hwhole)
  have hfractionLt : value d.fraction < 10 ^ 9 :=
    (value_lt d.fraction_digits).trans_le (Nat.pow_le_pow_right (by decide) hfraction)
  have hscaledLt : value d.fraction * 10 ^ (9 - d.fraction.length) < 10 ^ 9 := by
    calc value d.fraction * 10 ^ (9 - d.fraction.length)
        < 10 ^ d.fraction.length * 10 ^ (9 - d.fraction.length) :=
          Nat.mul_lt_mul_of_pos_right (value_lt d.fraction_digits) (by positivity)
      _ = 10 ^ 9 := by
        rw [← pow_add]
        congr 1
        omega
  rw [captured_eq]
  generalize value d.fraction * 10 ^ (9 - d.fraction.length) = scaled at hscaledLt
  refine ⟨Signed.toInt_ofNat_of_inRange (by decide) ?_, Signed.toInt_ofNat_of_inRange (by decide) ?_,
    Signed.toInt_ofInt_of_inRange (by decide) ?_, Signed.toInt_ofInt_of_inRange (by decide) ?_⟩
  · constructor <;> omega
  · constructor <;> omega
  · split <;> constructor <;> omega
  · split <;> constructor <;> omega

/-- A text that is accepted sets the seconds and nanoseconds that it captures. -/
theorem secondsProperty_deserialize {S : Schema} {m m' : Message} {text : String} {d : Numeral}
    (hmatch : matchDuration text.toList = some d)
    (h : deserializeProtobufWellKnownDuration S m (.string text) = (m', true)) :
    secondsProperty m' = some (captured d).1 ∧ nanosProperty m' = some (captured d).2 := by
  unfold deserializeProtobufWellKnownDuration at h
  simp only [hmatch] at h
  split at h
  · cases h
  · cases h
    exact ⟨rfl, rfl⟩

/-- What is accepted is a numeral that is the value of the stored duration. -/
theorem deserialize_accepted_match {S : Schema} {m m' : Message} {text : String}
    (h : deserializeProtobufWellKnownDuration S m (.string text) = (m', true)) :
    ∃ d, matchDuration text.toList = some d ∧
      secondsProperty m' = some (captured d).1 ∧ nanosProperty m' = some (captured d).2 ∧
      IsValue d (captured d).1.toInt (captured d).2.toInt := by
  cases hmatch : matchDuration text.toList with
  | none =>
    simp [deserializeProtobufWellKnownDuration, hmatch] at h
  | some d =>
    obtain ⟨hseconds, hnanos⟩ := secondsProperty_deserialize hmatch h
    obtain ⟨⟨hwhole, hfraction⟩, -⟩ := (matchDuration_eq_some_iff text.toList d).mp hmatch
    obtain ⟨-, -, htoInt, htoInt'⟩ := toInt_captured hwhole hfraction
    refine ⟨d, rfl, hseconds, hnanos, (isValue_iff_scaled hfraction _ _).mpr ?_⟩
    rw [htoInt, htoInt', Numeral.scaled]
    push_cast
    ring

/-- The numeral of a valid duration is accepted, and the duration is stored again. -/
theorem deserialize_numeral (S : Schema) (m : Message) {seconds : BitVec 64} {nanos : BitVec 32}
    (h : Valid seconds.toInt nanos.toInt) :
    deserializeProtobufWellKnownDuration S m
        (.string (String.ofList ((numeral seconds.toInt nanos.toInt).text ++ ['s']))) =
      (setProperties S m seconds nanos, true) := by
  obtain ⟨hwhole, hfraction, -, hvalue⟩ := numeral_spec h
  have hmatch := (matchDuration_eq_some_iff _ (numeral seconds.toInt nanos.toInt)).mpr
    ⟨⟨hwhole, hfraction⟩, .inl rfl⟩
  obtain ⟨hwholeInt, hfractionInt, hcaptured, hcaptured'⟩ := toInt_captured hwhole hfraction
  rw [isValue_iff_scaled hfraction, Numeral.scaled] at hvalue
  have hseconds : value (numeral seconds.toInt nanos.toInt).whole = seconds.toInt.natAbs :=
    value_toDigits _
  have hnegative : (numeral seconds.toInt nanos.toInt).negative =
    decide (seconds.toInt < 0 ∨ nanos.toInt < 0) := rfl
  have hbound : value (numeral seconds.toInt nanos.toInt).fraction < 10 ^ 9 :=
    (value_lt (numeral seconds.toInt nanos.toInt).fraction_digits).trans_le
      (Nat.pow_le_pow_right (by decide) hfraction)
  generalize hd : numeral seconds.toInt nanos.toInt = d at *
  obtain ⟨hmin, hmax, hmin', hmax', hsigns⟩ := h
  simp only [SecondsRange, NanosRange] at hmin hmax hmin' hmax'
  have hvalid : isValid (BitVec.ofNat 64 (value d.whole)) (BitVec.ofNat 32 (value d.fraction)) := by
    rw [isValid_iff, hwholeInt, hfractionInt, hseconds]
    simp only [Valid, SecondsRange, NanosRange]
    omega
  have hcapturedInt : (captured d).1.toInt = seconds.toInt ∧ (captured d).2.toInt = nanos.toInt := by
    rw [hseconds, hnegative] at hcaptured hvalue
    rw [hnegative] at hcaptured'
    push_cast at hcaptured'
    by_cases hneg : seconds.toInt < 0 ∨ nanos.toInt < 0
    · simp only [hneg, decide_true, if_true] at hcaptured hcaptured' hvalue
      omega
    · simp only [hneg, decide_false, Bool.false_eq_true, if_false] at hcaptured hcaptured' hvalue
      omega
  have hcapturedEq : captured d = (seconds, nanos) :=
    Prod.ext (BitVec.eq_of_toInt_eq hcapturedInt.1) (BitVec.eq_of_toInt_eq hcapturedInt.2)
  unfold deserializeProtobufWellKnownDuration
  simp only [String.toList_ofList, hmatch, hvalid, hcapturedEq]
  rfl

/-- A text is the decimal value of the duration in a message. -/
def DenotesDuration (text : List Char) (m : Message) : Prop :=
  ∃ d seconds nanos, text = d.text ++ ['s'] ∧ secondsProperty m = some seconds ∧
    nanosProperty m = some nanos ∧ IsValue d seconds.toInt nanos.toInt

/-- No text of a numeral and an `s` ends with a line feed. -/
theorem getLast?_numeral (d : Numeral) : (d.text ++ ['s']).getLast? = some 's' := by simp

/-- What is accepted is the decimal value of the duration that is stored, exactly if it does not end
with a line feed. -/
theorem denotesDuration_iff {S : Schema} {m m' : Message} {text : String}
    (h : deserializeProtobufWellKnownDuration S m (.string text) = (m', true)) :
    DenotesDuration text.toList m' ↔ text.toList.getLast? ≠ some '\n' := by
  obtain ⟨d, hmatch, hseconds, hnanos, hvalue⟩ := deserialize_accepted_match h
  constructor
  · rintro ⟨d', -, -, htext, -⟩
    rw [htext, getLast?_numeral]
    decide
  · intro hlast
    obtain ⟨-, htext | htext⟩ := (matchDuration_eq_some_iff text.toList d).mp hmatch
    · exact ⟨d, _, _, htext, hseconds, hnanos, hvalue⟩
    · rw [htext] at hlast
      simp at hlast

/-- Every valid duration is written as a numeral of the promised form, which is its decimal value and
is read back as this duration. What is accepted is the decimal value of the stored duration exactly
if it does not end with a line feed. -/
theorem durationJson_iff (S : Schema) :
    (∀ m m' seconds nanos, secondsProperty m = some seconds → nanosProperty m = some nanos →
      Valid seconds.toInt nanos.toInt →
      ∃ (d : Numeral) (m'' : Message),
        serializeProtobufWellKnownDuration m = some (.string (String.ofList (d.text ++ ['s']))) ∧
        d.whole.length ≤ 12 ∧ d.fraction.length ≤ 9 ∧ d.fraction.getLast? ≠ some '0' ∧
        IsValue d seconds.toInt nanos.toInt ∧ (d.text ++ ['s']).length ≤ 24 ∧
        deserializeProtobufWellKnownDuration S m' (.string (String.ofList (d.text ++ ['s']))) =
          (m'', true) ∧
        secondsProperty m'' = some seconds ∧ nanosProperty m'' = some nanos) ∧
    (∀ m m' text, deserializeProtobufWellKnownDuration S m (.string text) = (m', true) →
      (DenotesDuration text.toList m' ↔ text.toList.getLast? ≠ some '\n')) := by
  constructor
  · intro m m' seconds nanos hseconds hnanos hvalid
    obtain ⟨hwhole, hfraction, hlast, hvalue⟩ := numeral_spec hvalid
    have hlength := (numeral seconds.toInt nanos.toInt).length_text_le
    refine ⟨numeral seconds.toInt nanos.toInt, _, ?_, hwhole, hfraction, hlast, hvalue, ?_,
      deserialize_numeral S m' hvalid, rfl, rfl⟩
    · unfold serializeProtobufWellKnownDuration
      simp only [hseconds, hnanos, (isValid_iff seconds nanos).mpr hvalid, if_true, text_eq hvalid]
    · rw [List.length_append, List.length_singleton]
      omega
  · intro m m' text h
    exact denotesDuration_iff h

/-- One second with a line feed behind it is accepted. -/
theorem not_denotesDuration_lineFeed :
    (deserializeProtobufWellKnownDuration timestampSchema (Timestamp.message ⟨0, 0⟩)
        (.string "1s\n")).2 = true ∧
      ¬DenotesDuration "1s\n".toList (deserializeProtobufWellKnownDuration timestampSchema
        (Timestamp.message ⟨0, 0⟩) (.string "1s\n")).1 := by
  refine ⟨by decide, ?_⟩
  rintro ⟨d, -, -, htext, -⟩
  have hlast := congrArg List.getLast? htext
  rw [getLast?_numeral] at hlast
  exact absurd hlast (by decide)

end Duration

end QtGrpc.WellKnown
