import QtGrpc.Bytes
import Mathlib

/-!
# JSON values

`QJsonValue` and `QJsonObject`. An object lists its members in the order of its keys, which is
the order of their UTF-16 code units. What the decoder takes out of a value has a smaller size
than the value.
-/

namespace QtGrpc.Protobuf

/-- `QJsonValue`, if it is not undefined. A number is kept as an integer if it was written as one
or equals one. -/
inductive JsonValue where
  | null
  | bool (b : Bool)
  | integer (n : BitVec 64)
  | double (bits : BitVec 64)
  | string (text : String)
  | array (items : List JsonValue)
  | object (members : List (String × JsonValue))

/-- The members of a `QJsonObject`. -/
abbrev JsonObject := List (String × JsonValue)

namespace JsonValue

def isNull : JsonValue → Bool
  | .null => true
  | _ => false

end JsonValue

mutual

/-- The number of nodes and members of a value. An object counts twice, so that a member written
as an object of its own is smaller than the object around the one it was taken from. -/
def JsonValue.size : JsonValue → Nat
  | .array items => 1 + JsonValue.sizeItems items
  | .object members => 2 + JsonObject.size members
  | .null | .bool _ | .integer _ | .double _ | .string _ => 1

def JsonValue.sizeItems : List JsonValue → Nat
  | [] => 0
  | item :: items => item.size + JsonValue.sizeItems items

def JsonObject.size : JsonObject → Nat
  | [] => 0
  | (_, value) :: members => 1 + value.size + JsonObject.size members

end

namespace JsonObject

/-- `QJsonObject::keys`. -/
def keys (o : JsonObject) : List String := o.map (·.1)

/-- `QJsonObject::value`. That of an absent key is undefined, which is told from null nowhere. -/
def value (o : JsonObject) (key : String) : JsonValue := (o.lookup key).getD .null

/-- The UTF-16 code units of a text. -/
def utf16 (text : String) : List Nat :=
  text.toList.flatMap fun c =>
    if c.toNat < 0x10000 then [c.toNat]
    else [0xd800 + (c.toNat - 0x10000) / 0x400, 0xdc00 + (c.toNat - 0x10000) % 0x400]

/-- The order of the keys of an object. -/
def keyLess (a b : String) : Bool := decide (utf16 a < utf16 b)

/-- The first member of this key gets another value. -/
def replace : JsonObject → String → JsonValue → JsonObject
  | [], _, _ => []
  | (k, v) :: rest, key, value =>
    if k = key then (k, value) :: rest else (k, v) :: replace rest key value

/-- A new member takes its place in the order of the keys. -/
def insertNew : JsonObject → String → JsonValue → JsonObject
  | [], key, value => [(key, value)]
  | (k, v) :: rest, key, value =>
    if keyLess key k then (key, value) :: (k, v) :: rest else (k, v) :: insertNew rest key value

/-- `QJsonObject::insert`. -/
def insert (o : JsonObject) (key : String) (value : JsonValue) : JsonObject :=
  if key ∈ keys o then replace o key value else insertNew o key value

/-- The key of the first member comes first. -/
@[simp] theorem keys_cons (k : String) (v : JsonValue) (o : JsonObject) :
    keys ((k, v) :: o) = k :: keys o := rfl

/-- An empty object has no keys. -/
@[simp] theorem keys_nil : keys [] = [] := rfl

/-- The first member has its value. -/
@[simp] theorem value_cons_self (k : String) (v : JsonValue) (o : JsonObject) :
    value ((k, v) :: o) k = v := by
  simp [value]

/-- The values of the other keys come from the other members. -/
theorem value_cons_of_ne {k key : String} (v : JsonValue) (o : JsonObject) (h : k ≠ key) :
    value ((k, v) :: o) key = value o key := by
  have hne : (key == k) = false := by simpa using Ne.symm h
  rw [value, List.lookup, hne]
  rfl

/-- A key that is not the first is one of the others. -/
theorem mem_keys_of_cons {k key : String} {v : JsonValue} {o : JsonObject}
    (h : key ∈ keys ((k, v) :: o)) (hne : k ≠ key) : key ∈ keys o :=
  (List.mem_cons.mp h).resolve_left (Ne.symm hne)

/-- Replacing a member changes the size by the difference of the two values. -/
theorem size_replace (o : JsonObject) (key : String) (v : JsonValue) (h : key ∈ keys o) :
    size (replace o key v) + (value o key).size = size o + v.size := by
  induction o with
  | nil => simp at h
  | cons member o ih =>
    obtain ⟨k, w⟩ := member
    by_cases hk : k = key
    · subst hk
      simp only [replace, if_pos, size, value_cons_self]
      omega
    · have := ih (mem_keys_of_cons h hk)
      simp only [replace, hk, if_false, size, value_cons_of_ne w o hk]
      omega

/-- A value that is replaced by a smaller one makes its object smaller. -/
theorem size_insert_lt (o : JsonObject) (key : String) (v : JsonValue) (h : key ∈ keys o)
    (hv : v.size < (value o key).size) : size (insert o key v) < size o := by
  have := size_replace o key v h
  rw [insert, if_pos h]
  omega

/-- A member is smaller than its object. -/
theorem size_value_lt (o : JsonObject) (key : String) (h : key ∈ keys o) :
    (value o key).size < size o := by
  induction o with
  | nil => simp at h
  | cons member o ih =>
    obtain ⟨k, w⟩ := member
    by_cases hk : k = key
    · subst hk
      simp only [value_cons_self, size]
      omega
    · have := ih (mem_keys_of_cons h hk)
      simp only [value_cons_of_ne w o hk, size]
      omega

end JsonObject

end QtGrpc.Protobuf
