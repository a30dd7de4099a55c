import Mathlib.Tactic.Ring

/-!
# Fixed-width byte strings of natural numbers

A fixed-width integer is written as the list of the lowest bytes of a number, in either byte order.
Reading back what was written keeps the bits that fit the width; the big-endian forms are the
reversed little-endian ones.
-/

namespace ByteOrder

/-- The lowest `width` bytes of a number, least significant byte first. -/
def toLittleEndian : Nat → Nat → List UInt8
  | 0, _ => []
  | width + 1, n => UInt8.ofNat (n % 256) :: toLittleEndian width (n / 256)

/-- The number denoted by bytes whose first one is the least significant. -/
def ofLittleEndian : List UInt8 → Nat
  | [] => 0
  | b :: bytes => b.toNat + 256 * ofLittleEndian bytes

/-- The lowest `width` bytes of a number, most significant byte first. -/
def toBigEndian (width n : Nat) : List UInt8 := (toLittleEndian width n).reverse

/-- The number denoted by bytes whose first one is the most significant. -/
def ofBigEndian (bytes : List UInt8) : Nat := ofLittleEndian bytes.reverse

/-- As many bytes are written as the width says. -/
@[simp] theorem length_toLittleEndian (width n : Nat) :
    (toLittleEndian width n).length = width := by
  induction width generalizing n with
  | zero => rfl
  | succ width ih => simp [toLittleEndian, ih]

/-- In the other order they are as many. -/
@[simp] theorem length_toBigEndian (width n : Nat) : (toBigEndian width n).length = width := by
  simp [toBigEndian]

/-- Reading back what was written keeps exactly the bits that fit the width. -/
theorem ofLittleEndian_toLittleEndian (width n : Nat) :
    ofLittleEndian (toLittleEndian width n) = n % 256 ^ width := by
  induction width generalizing n with
  | zero => simp [toLittleEndian, ofLittleEndian, Nat.mod_one]
  | succ width ih =>
    have hb : (UInt8.ofNat (n % 256)).toNat = n % 256 := by
      simp [UInt8.toNat_ofNat']
    rw [toLittleEndian, ofLittleEndian, ih, hb, pow_succ, mul_comm (256 ^ width) 256,
      Nat.mod_mul]

/-- The same in the other order. -/
theorem ofBigEndian_toBigEndian (width n : Nat) :
    ofBigEndian (toBigEndian width n) = n % 256 ^ width := by
  simp [ofBigEndian, toBigEndian, ofLittleEndian_toLittleEndian]

end ByteOrder
