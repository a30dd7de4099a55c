import Mathlib.Data.BitVec
import Mathlib.Data.Int.Order.Lemmas

/-!
# Signed machine integers

Arithmetic of two's complement integers whose overflow is undefined: an operation that overflows
has no result. One that has a result is exact.
-/

namespace Signed

variable {w : Nat}

/-- The integer is one of the signed integers of this width. -/
def InRange (w : Nat) (n : Int) : Prop := -2 ^ (w - 1) ≤ n ∧ n < 2 ^ (w - 1)

instance (w : Nat) (n : Int) : Decidable (InRange w n) := by
  unfold InRange
  infer_instance

/-- The sum of two signed integers, unless it overflows. -/
def checkedAdd (a b : BitVec w) : Option (BitVec w) :=
  if a.saddOverflow b then none else some (a + b)

/-- The product of two signed integers, unless it overflows. -/
def checkedMul (a b : BitVec w) : Option (BitVec w) :=
  if a.smulOverflow b then none else some (a * b)

/-- The value of a word is in its range. -/
theorem inRange_toInt (a : BitVec w) : InRange w a.toInt := by
  exact ⟨BitVec.le_toInt a, BitVec.toInt_lt⟩

/-- An addition does not overflow exactly when the sum is in range. -/
theorem saddOverflow_eq_false_iff (a b : BitVec w) :
    a.saddOverflow b = false ↔ InRange w (a.toInt + b.toInt) := by
  simp only [BitVec.saddOverflow, InRange, Bool.or_eq_false_iff, decide_eq_false_iff_not]
  omega

/-- A multiplication does not overflow exactly when the product is in range. -/
theorem smulOverflow_eq_false_iff (a b : BitVec w) :
    a.smulOverflow b = false ↔ InRange w (a.toInt * b.toInt) := by
  simp only [BitVec.smulOverflow, InRange, Bool.or_eq_false_iff, decide_eq_false_iff_not]
  omega

/-- A sum is exact. -/
theorem checkedAdd_eq_some_iff (a b c : BitVec w) :
    checkedAdd a b = some c ↔ c.toInt = a.toInt + b.toInt := by
  unfold checkedAdd
  constructor
  · intro h
    split at h
    · cases h
    · rename_i hflow
      cases h
      exact BitVec.toInt_add_of_not_saddOverflow hflow
  · intro h
    have hflow : a.saddOverflow b = false :=
      (saddOverflow_eq_false_iff a b).mpr (h ▸ inRange_toInt c)
    have hsum : (a + b).toInt = a.toInt + b.toInt :=
      BitVec.toInt_add_of_not_saddOverflow (by simp [hflow])
    rw [hflow, if_neg (by simp), BitVec.eq_of_toInt_eq (hsum.trans h.symm)]

/-- A product is exact. -/
theorem checkedMul_eq_some_iff (a b c : BitVec w) :
    checkedMul a b = some c ↔ c.toInt = a.toInt * b.toInt := by
  unfold checkedMul
  constructor
  · intro h
    split at h
    · cases h
    · rename_i hflow
      cases h
      exact BitVec.toInt_mul_of_not_smulOverflow hflow
  · intro h
    have hflow : a.smulOverflow b = false :=
      (smulOverflow_eq_false_iff a b).mpr (h ▸ inRange_toInt c)
    have hproduct : (a * b).toInt = a.toInt * b.toInt :=
      BitVec.toInt_mul_of_not_smulOverflow (by simp [hflow])
    rw [hflow, if_neg (by simp), BitVec.eq_of_toInt_eq (hproduct.trans h.symm)]

/-- There is a product exactly if the integer is in range. -/
theorem isSome_checkedMul (a b : BitVec w) :
    (checkedMul a b).isSome ↔ InRange w (a.toInt * b.toInt) := by
  rw [← smulOverflow_eq_false_iff]
  unfold checkedMul
  split <;> simp_all

/-- The balanced remainder of an integer in range is the integer. -/
theorem bmod_of_inRange {n : Int} (hw : 0 < w) (h : InRange w n) : n.bmod (2 ^ w) = n := by
  obtain ⟨hlow, hhigh⟩ := h
  obtain ⟨v, rfl⟩ : ∃ v, w = v + 1 := ⟨w - 1, by omega⟩
  simp only [Nat.add_sub_cancel] at hlow hhigh
  have hpow : (2 : Int) ^ (v + 1) = 2 * 2 ^ v := by rw [pow_succ, mul_comm]
  exact Int.bmod_eq_of_le (by push_cast; omega) (by push_cast; omega)

/-- An integer in range is that of its own bits. -/
theorem toInt_ofInt_of_inRange {n : Int} (hw : 0 < w) (h : InRange w n) :
    (BitVec.ofInt w n).toInt = n := by
  rw [BitVec.toInt_ofInt, bmod_of_inRange hw h]

/-- A number in range is kept as it is. -/
theorem toInt_ofNat_of_inRange {n : Nat} (hw : 0 < w) (h : InRange w n) :
    (BitVec.ofNat w n).toInt = n := by
  rw [← BitVec.ofInt_natCast, toInt_ofInt_of_inRange hw h]

/-- A conversion to a narrower type keeps the integers of that type. -/
theorem toInt_setWidth_of_inRange {v : Nat} (a : BitVec w) (hv : 0 < v) (hvw : v ≤ w)
    (h : InRange v a.toInt) : (a.setWidth v).toInt = a.toInt := by
  rw [← BitVec.signExtend_eq_setWidth_of_le a hvw, BitVec.toInt_signExtend_eq_toInt_bmod_of_le a hvw,
    bmod_of_inRange hv h]

/-- A product in range is exact. -/
theorem toInt_mul_of_inRange (a b : BitVec w) (h : InRange w (a.toInt * b.toInt)) :
    (a * b).toInt = a.toInt * b.toInt :=
  BitVec.toInt_mul_of_not_smulOverflow (by simp [(smulOverflow_eq_false_iff a b).mpr h])

end Signed
