import QtGrpc.Library.ByteOrder
import Mathlib.Logic.Function.Basic

/-!
# Memory of bytes and words

Memory as the byte at each address. Blocks of bytes and 32-bit words are written and read at an
address; a block that was written is read back, and reading elsewhere is not affected. Words are
stored with their least significant byte first.
-/

/-- The byte at each address. -/
abbrev Memory := Nat → UInt8

namespace Memory

/-- The bytes of a block. -/
def read (memory : Memory) (address : Nat) : Nat → List UInt8
  | 0 => []
  | length + 1 => memory address :: read memory (address + 1) length

/-- Store a block of bytes. -/
def write (memory : Memory) (address : Nat) : List UInt8 → Memory
  | [] => memory
  | byte :: bytes => write (Function.update memory address byte) (address + 1) bytes

/-- The word at an address. -/
def readWord (memory : Memory) (address : Nat) : BitVec 32 :=
  BitVec.ofNat 32 (ByteOrder.ofLittleEndian (memory.read address 4))

/-- Store a word. -/
def writeWord (memory : Memory) (address : Nat) (word : BitVec 32) : Memory :=
  memory.write address (ByteOrder.toLittleEndian 4 word.toNat)

/-- Store words one behind the other. -/
def writeWords (memory : Memory) (address : Nat) : List (BitVec 32) → Memory
  | [] => memory
  | word :: words => writeWords (memory.writeWord address word) (address + 4) words

variable (memory : Memory)

/-- As many bytes are read as were asked for. -/
@[simp] theorem length_read (address length : Nat) :
    (memory.read address length).length = length := by
  induction length generalizing address with
  | zero => rfl
  | succ length ih => simp [read, ih]

/-- A byte outside the block that is stored keeps its value. -/
theorem write_of_outside {address query : Nat} (bytes : List UInt8)
    (outside : query < address ∨ address + bytes.length ≤ query) :
    memory.write address bytes query = memory query := by
  induction bytes generalizing memory address with
  | nil => rfl
  | cons byte bytes ih =>
    rw [List.length_cons] at outside
    rw [write, ih]
    · exact Function.update_of_ne (by omega) _ _
    · omega

/-- A block disjoint from the one that is stored keeps its bytes. -/
theorem read_write_of_disjoint {address query length : Nat} (bytes : List UInt8)
    (disjoint : query + length ≤ address ∨ address + bytes.length ≤ query) :
    (memory.write address bytes).read query length = memory.read query length := by
  induction length generalizing query with
  | zero => rfl
  | succ length ih =>
    rw [read, read, write_of_outside memory bytes (by omega), ih (by omega)]

/-- Two blocks that lie side by side are one. -/
theorem write_append (address : Nat) (bytes rest : List UInt8) :
    memory.write address (bytes ++ rest) =
      (memory.write address bytes).write (address + bytes.length) rest := by
  induction bytes generalizing memory address with
  | nil => rfl
  | cons byte bytes ih =>
    rw [List.cons_append, write, write, ih, List.length_cons]
    congr 1
    omega

/-- What is read at the beginning of a stored block. -/
theorem read_write_self (address length : Nat) (bytes : List UInt8) (h : length ≤ bytes.length) :
    (memory.write address bytes).read address length = bytes.take length := by
  induction bytes generalizing memory address length with
  | nil =>
    obtain rfl : length = 0 := by simpa using h
    rfl
  | cons byte bytes ih =>
    cases length with
    | zero => rfl
    | succ length =>
      rw [List.length_cons] at h
      rw [write, read, ih _ _ _ (by omega), write_of_outside _ _ (by omega), Function.update_self,
        List.take_succ_cons]

/-- What is read inside a stored block. -/
theorem read_write_inside (address offset length : Nat) (bytes : List UInt8)
    (h : offset + length ≤ bytes.length) :
    (memory.write address bytes).read (address + offset) length =
      (bytes.drop offset).take length := by
  have hsplit := write_append memory address (bytes.take offset) (bytes.drop offset)
  rw [List.take_append_drop, List.length_take, Nat.min_eq_left (by omega)] at hsplit
  rw [hsplit, read_write_self _ _ _ _ (by rw [List.length_drop]; omega)]

/-- A word is read where it was written. -/
@[simp] theorem readWord_writeWord_self (address : Nat) (word : BitVec 32) :
    (memory.writeWord address word).readWord address = word := by
  have hlength := ByteOrder.length_toLittleEndian 4 word.toNat
  have hlt : word.toNat % 256 ^ 4 = word.toNat := Nat.mod_eq_of_lt word.isLt
  rw [readWord, writeWord, read_write_self _ _ _ _ (by omega), List.take_of_length_le (by omega),
    ByteOrder.ofLittleEndian_toLittleEndian, hlt, BitVec.ofNat_toNat, BitVec.setWidth_eq]

/-- A word apart from the written bytes stays. -/
theorem readWord_write_of_disjoint {address query : Nat} (bytes : List UInt8)
    (disjoint : query + 4 ≤ address ∨ address + bytes.length ≤ query) :
    (memory.write address bytes).readWord query = memory.readWord query := by
  rw [readWord, readWord, read_write_of_disjoint memory bytes disjoint]

/-- A word apart from the written one stays. -/
theorem readWord_writeWord_of_disjoint {address query : Nat} (word : BitVec 32)
    (disjoint : query + 4 ≤ address ∨ address + 4 ≤ query) :
    (memory.writeWord address word).readWord query = memory.readWord query := by
  refine readWord_write_of_disjoint memory _ ?_
  rw [ByteOrder.length_toLittleEndian]
  exact disjoint

/-- A word apart from the written ones stays. -/
theorem readWord_writeWords_of_disjoint {address query : Nat} (words : List (BitVec 32))
    (disjoint : query + 4 ≤ address ∨ address + 4 * words.length ≤ query) :
    (memory.writeWords address words).readWord query = memory.readWord query := by
  induction words generalizing memory address with
  | nil => rfl
  | cons word words ih =>
    rw [List.length_cons] at disjoint
    rw [writeWords, ih _ (by omega), readWord_writeWord_of_disjoint _ _ (by omega)]

/-- Words stored one behind the other are read at their places. -/
theorem readWord_writeWords (address : Nat) (words : List (BitVec 32)) {i : Nat} {word : BitVec 32}
    (h : words[i]? = some word) :
    (memory.writeWords address words).readWord (address + 4 * i) = word := by
  induction words generalizing memory address i with
  | nil => simp at h
  | cons first words ih =>
    cases i with
    | zero =>
      obtain rfl : first = word := by simpa using h
      rw [writeWords, readWord_writeWords_of_disjoint _ _ (by omega)]
      exact readWord_writeWord_self memory address first
    | succ i =>
      rw [writeWords, show address + 4 * (i + 1) = address + 4 + 4 * i by omega]
      exact ih _ _ (by simpa using h)

end Memory
