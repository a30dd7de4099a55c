import QtGrpc.Protobuf.Binary.Complete
import QtGrpc.Protobuf.Binary.Progress

/-!
# Varints and their shifts

`deserializeVarintCommon` shifts the bits of every byte by seven more than those of the byte
before and has no bound on the number of bytes. The number that the bytes stand for is defined
without a width here, and compared with what the loop makes of them.
-/

namespace QtGrpc.Protobuf.Binary

/-- The number that the bytes of a varint stand for, the lowest seven bits first. -/
def varintNumber : Bytes → Nat
  | [] => 0
  | byte :: bytes => (byte &&& 0x7f).toNat + 128 * varintNumber bytes

/-- The shift of every byte that the loop of `deserializeVarintCommon` reads. -/
def varintShifts (k : Nat) : Bytes → List Nat
  | [] => []
  | byte :: rest => k :: if continues byte then varintShifts (k + 7) rest else []

/-- If the first bytes go on, as many as are given, then the byte behind them is the last one of
the input or has a single bit. -/
def varintFits : Nat → Bytes → Bool
  | _, [] => true
  | 0, [byte] => continues byte || byte ≤ 1
  | 0, byte :: _ => byte ≤ 1
  | n + 1, byte :: rest => !continues byte || varintFits n rest

/-- A varint is read from ten bytes at most, without a shift past the width of the result, and the
result is the number they stand for. -/
structure VarintBounded (env : Environment) (it : Iterator) : Prop where
  shift_lt : ∀ k ∈ varintShifts 0 it.rest, k < 64
  read : ∀ (it' : Iterator) (value : BitVec 64),
    deserializeVarintCommon env it = (it', some value) →
      ∃ n : Nat, n ≤ 10 ∧ it' = it.advance n ∧ n ≤ it.bytesLeft ∧ varintNumber (it.rest.take n) < 2 ^ 64 ∧
        value.toNat = varintNumber (it.rest.take n)
  rejects : 10 ≤ (it.rest.takeWhile continues).length → (deserializeVarintCommon env it).2 = none

/-- A byte that ends a varint has no mark to lose. -/
theorem toNat_of_not_continues {byte : UInt8} (h : continues byte = false) :
    (byte &&& 0x7f).toNat = byte.toNat := by
  have hbits : ∀ bits : BitVec 8, continues ⟨bits⟩ = false →
      ((⟨bits⟩ : UInt8) &&& 0x7f).toNat = (⟨bits⟩ : UInt8).toNat := by
    decide +kernel
  exact hbits byte.toBitVec h

theorem not_continues_of_le_one {byte : UInt8} (h : byte ≤ 1) : continues byte = false := by
  have hbits : ∀ bits : BitVec 8, (⟨bits⟩ : UInt8) ≤ 1 → continues ⟨bits⟩ = false := by
    decide +kernel
  exact hbits byte.toBitVec h

theorem varintShifts_lt {n j : Nat} (hj : j + n = 9) {bytes : Bytes}
    (h : varintFits n bytes) : ∀ k ∈ varintShifts (7 * j) bytes, k < 64 := by
  induction n generalizing j bytes with
  | zero =>
    match bytes, h with
    | [], _ => simp [varintShifts]
    | [byte], _ =>
      simp only [varintShifts, ite_self, List.mem_singleton, forall_eq]
      omega
    | byte :: _ :: _, h =>
      have hends := not_continues_of_le_one (by simpa [varintFits] using h)
      simp only [varintShifts, hends, Bool.false_eq_true, if_false, List.mem_singleton, forall_eq]
      omega
  | succ n ih =>
    cases bytes with
    | nil => simp [varintShifts]
    | cons byte rest =>
      cases hmore : continues byte with
      | false =>
        simp only [varintShifts, hmore, Bool.false_eq_true, if_false, List.mem_singleton, forall_eq]
        omega
      | true =>
        have hrest : varintFits n rest := by simpa [varintFits, hmore] using h
        have hnext := ih (j := j + 1) (by omega) hrest
        simp only [varintShifts, hmore, if_true, List.mem_cons, forall_eq_or_imp]
        exact ⟨by omega, hnext⟩

/-- What the loop reads from bytes that fit, in front of which it has read some. -/
theorem varintLoop_of_fits {env : Environment} {n j : Nat} (hj : j + n = 9) {bytes : Bytes}
    (h : varintFits n bytes) {value result : BitVec 64} {taken : Nat}
    (hloop : varintLoop env (7 * j) value bytes = (taken, some result)) :
    taken ≤ n + 1 ∧ varintNumber (bytes.take taken) < 2 ^ (64 - 7 * j) ∧
      result = value + BitVec.ofNat 64 (varintNumber (bytes.take taken) * 2 ^ (7 * j)) := by
  induction n generalizing j bytes value taken with
  | zero =>
    obtain rfl : j = 9 := by omega
    cases bytes with
    | nil => simp [varintLoop] at hloop
    | cons byte rest =>
      cases hmore : continues byte with
      | true =>
        cases rest with
        | nil => simp [varintLoop, hmore] at hloop
        | cons _ _ =>
          have hends := not_continues_of_le_one (by simpa [varintFits] using h)
          rw [hmore] at hends
          cases hends
      | false =>
        have hone : byte ≤ 1 := by
          cases rest with
          | nil => simpa [varintFits, hmore] using h
          | cons _ _ => simpa [varintFits] using h
        have hbits : byte.toNat ≤ 1 := hone
        simp only [varintLoop, hmore, Bool.false_eq_true, if_false, Prod.mk.injEq,
          Option.some.injEq] at hloop
        obtain ⟨rfl, rfl⟩ := hloop
        simp only [List.take_succ_cons, List.take_zero, varintNumber, toNat_of_not_continues hmore,
          shiftByte_eq env byte (show 7 * 9 < 64 by omega)]
        exact ⟨by omega, by omega, rfl⟩
  | succ n ih =>
    cases bytes with
    | nil => simp [varintLoop] at hloop
    | cons byte rest =>
      have hlow : (byte &&& 0x7f).toNat < 128 := by
        rw [UInt8.toNat_and]
        exact Nat.lt_of_le_of_lt Nat.and_le_right (by decide)
      have hwidth : 64 - 7 * j = 64 - 7 * (j + 1) + 7 := by omega
      cases hmore : continues byte with
      | false =>
        simp only [varintLoop, hmore, Bool.false_eq_true, if_false, Prod.mk.injEq,
          Option.some.injEq] at hloop
        obtain ⟨rfl, rfl⟩ := hloop
        simp only [List.take_succ_cons, List.take_zero, varintNumber,
          shiftByte_eq env byte (show 7 * j < 64 by omega), Nat.mul_zero, Nat.add_zero]
        have hroom : 0 < 2 ^ (64 - 7 * (j + 1)) := Nat.two_pow_pos _
        refine ⟨by omega, ?_, trivial⟩
        rw [hwidth, pow_add]
        omega
      | true =>
        have hrest : varintFits n rest := by simpa [varintFits, hmore] using h
        have hfrom : 7 * j + 7 = 7 * (j + 1) := by ring
        rcases htail : varintLoop env (7 * (j + 1)) (value + shiftByte env byte (7 * j)) rest with
          ⟨taken', result'⟩
        simp only [varintLoop, hmore, if_true, hfrom, htail, Prod.mk.injEq] at hloop
        obtain ⟨rfl, rfl⟩ := hloop
        obtain ⟨htaken, hnumber, hvalue⟩ := ih (j := j + 1) (by omega) hrest htail
        simp only [List.take_succ_cons, varintNumber]
        refine ⟨by omega, ?_, ?_⟩
        · rw [hwidth, pow_add]
          omega
        · rw [hvalue, shiftByte_eq env byte (show 7 * j < 64 by omega), BitVec.add_assoc,
            ← BitVec.ofNat_add]
          congr 2
          ring

/-- Bytes that do not fit make the loop shift too far, or stand for too large a number. -/
theorem varintLoop_of_not_fits {env : Environment} {n j : Nat} (hj : j + n = 9) {bytes : Bytes}
    (h : varintFits n bytes = false) (value : BitVec 64) :
    (∃ k ∈ varintShifts (7 * j) bytes, 64 ≤ k) ∨
      ∃ taken result, varintLoop env (7 * j) value bytes = (taken, some result) ∧
        2 ^ (64 - 7 * j) ≤ varintNumber (bytes.take taken) := by
  induction n generalizing j bytes value with
  | zero =>
    obtain rfl : j = 9 := by omega
    cases bytes with
    | nil => simp [varintFits] at h
    | cons byte rest =>
      have hlarge : 1 < byte := by
        cases rest with
        | nil =>
          have hbound : continues byte = false ∧ 1 < byte := by simpa [varintFits] using h
          exact hbound.2
        | cons _ _ => simpa [varintFits] using h
      have hbits : 1 < byte.toNat := hlarge
      cases hmore : continues byte with
      | true =>
        cases rest with
        | nil => simp [varintFits, hmore] at h
        | cons next rest => exact Or.inl ⟨70, by simp [varintShifts, hmore], by omega⟩
      | false =>
        refine Or.inr ⟨1, value + shiftByte env byte (7 * 9),
          by simp only [varintLoop, hmore, Bool.false_eq_true, if_false], ?_⟩
        simp only [List.take_succ_cons, List.take_zero, varintNumber, toNat_of_not_continues hmore]
        omega
  | succ n ih =>
    cases bytes with
    | nil => simp [varintFits] at h
    | cons byte rest =>
      have hboth : continues byte = true ∧ varintFits n rest = false := by
        simpa [varintFits] using h
      obtain ⟨hmore, hrest⟩ := hboth
      rcases ih (j := j + 1) (by omega) hrest (value + shiftByte env byte (7 * j)) with hshift | hread
      · obtain ⟨k, hk, hlarge⟩ := hshift
        exact Or.inl ⟨k, by simp only [varintShifts, hmore, if_true]; exact List.mem_cons_of_mem _ hk,
          hlarge⟩
      · obtain ⟨taken, result, hloop, hnumber⟩ := hread
        refine Or.inr ⟨taken + 1, result, ?_, ?_⟩
        · have hfrom : 7 * j + 7 = 7 * (j + 1) := by ring
          simp only [varintLoop, hmore, if_true, hfrom, hloop]
        · have hwidth : 64 - 7 * j = 64 - 7 * (j + 1) + 7 := by omega
          simp only [List.take_succ_cons, varintNumber]
          rw [hwidth, pow_add]
          omega

/-- The loop takes the bytes that go on and one more, if there is one. -/
theorem varintLoop_takeWhile (env : Environment) (k : Nat) (value : BitVec 64) (bytes : Bytes)
    {taken : Nat} {result : BitVec 64} (h : varintLoop env k value bytes = (taken, some result)) :
    taken = (bytes.takeWhile continues).length + 1 := by
  induction bytes generalizing k value taken with
  | nil => simp [varintLoop] at h
  | cons byte rest ih =>
    cases hmore : continues byte with
    | false =>
      simp only [varintLoop, hmore, Bool.false_eq_true, if_false, Prod.mk.injEq] at h
      simp [hmore, ← h.1]
    | true =>
      rcases htail : varintLoop env (k + 7) (value + shiftByte env byte k) rest with
        ⟨taken', result'⟩
      simp only [varintLoop, hmore, if_true, htail, Prod.mk.injEq] at h
      obtain ⟨rfl, rfl⟩ := h
      rw [List.takeWhile_cons_of_pos hmore, List.length_cons, ih _ _ htail]

/-- Where a varint is written, at any place of a container, its value is read back and the iterator
is left behind it. -/
theorem deserializeVarintCommon_serializeVarintCommon (env : Environment) (before rest : Bytes)
    (value : BitVec 64) :
    deserializeVarintCommon env ⟨before ++ (serializeVarintCommon value ++ rest), before.length⟩ =
      (⟨before ++ (serializeVarintCommon value ++ rest),
        before.length + (serializeVarintCommon value).length⟩, some value) := by
  have hvalid : Iterator.isValid
      ⟨before ++ (serializeVarintCommon value ++ rest), before.length⟩ := by
    simp only [Iterator.isValid_iff, List.length_append]
    omega
  have hrest : Iterator.rest ⟨before ++ (serializeVarintCommon value ++ rest), before.length⟩ =
      serializeVarintCommon value ++ rest := by
    rw [Iterator.rest, if_pos hvalid, Int.toNat_natCast, List.drop_left]
  rw [deserializeVarintCommon_of_isVarint (isVarint_serializeVarintCommon value) hrest,
    Iterator.advance, if_pos hvalid]

/-- Varints are read back from what was written. What is read from arbitrary bytes is bounded if
and only if the tenth byte, if nine bytes go on, has room for its bits and is the last one. -/
theorem varintCoding (env : Environment) :
    (∀ (before rest : Bytes) (value : BitVec 64),
      deserializeVarintCommon env ⟨before ++ (serializeVarintCommon value ++ rest), before.length⟩ =
        (⟨before ++ (serializeVarintCommon value ++ rest),
          before.length + (serializeVarintCommon value).length⟩, some value)) ∧
      ∀ it : Iterator, VarintBounded env it ↔ varintFits 9 it.rest := by
  refine ⟨deserializeVarintCommon_serializeVarintCommon env, fun it => ⟨fun h => ?_, fun h => ?_⟩⟩
  · by_contra hfits
    rcases @varintLoop_of_not_fits env 9 0 rfl _ (by simpa using hfits) 0 with
      ⟨k, hk, hlarge⟩ | ⟨taken, result, hloop, hnumber⟩
    · exact absurd (h.shift_lt k hk) (by omega)
    · have hpos := varintLoop_pos env 0 0 it.rest (by rw [hloop]; simp)
      have hle := varintLoop_le env 0 0 it.rest
      rw [hloop] at hpos hle
      have hvalid : it.isValid := Iterator.isValid_of_bytesLeft (by rw [Iterator.bytesLeft]; omega)
      obtain ⟨n, -, hit, hn, hbound, -⟩ := h.read (it.advance taken) result
        (by simp only [deserializeVarintCommon, hloop])
      have hposition := congrArg Iterator.position hit
      rw [Iterator.position_advance hvalid, Iterator.position_advance hvalid] at hposition
      obtain rfl : taken = n := by omega
      omega
  · constructor
    · exact varintShifts_lt (j := 0) rfl h
    · intro it' value hread
      rcases hloop : varintLoop env 0 0 it.rest with ⟨taken, result⟩
      simp only [deserializeVarintCommon, hloop, Prod.mk.injEq] at hread
      obtain ⟨rfl, rfl⟩ := hread
      have hle := varintLoop_le env 0 0 it.rest
      rw [hloop] at hle
      obtain ⟨htaken, hnumber, hvalue⟩ := varintLoop_of_fits (j := 0) rfl h hloop
      refine ⟨taken, htaken, rfl, hle, hnumber, ?_⟩
      have hread : value = BitVec.ofNat 64 (varintNumber (it.rest.take taken)) := by
        simpa using hvalue
      rw [hread, BitVec.toNat_ofNat, Nat.mod_eq_of_lt hnumber]
    · intro hmany
      rcases hloop : varintLoop env 0 0 it.rest with ⟨taken, _ | result⟩
      · simp only [deserializeVarintCommon, hloop]
      · obtain ⟨htaken, -, -⟩ := varintLoop_of_fits (j := 0) rfl h hloop
        have hmore := varintLoop_takeWhile env 0 0 it.rest hloop
        omega

/-- Ten bytes that go on and an eleventh one. -/
def elevenBytes : Bytes := List.replicate 10 0x80 ++ [0x01]

/-- The eleven bytes are read as one varint, and the last shift is by 70. -/
theorem not_varintBounded_elevenBytes :
    (deserializeVarintCommon nullTerminated (.fromView elevenBytes)).2 ≠ none ∧
      70 ∈ varintShifts 0 elevenBytes ∧
      ¬VarintBounded nullTerminated (.fromView elevenBytes) := by
  refine ⟨by decide, by decide, fun h => ?_⟩
  exact absurd (h.shift_lt 70 (by decide)) (by omega)

end QtGrpc.Protobuf.Binary
