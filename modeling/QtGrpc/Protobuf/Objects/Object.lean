import QtGrpc.Library.Sharing
import QtGrpc.Protobuf.Message

/-!
# Objects of generated classes

An object of a generated class refers to its data through a `QExplicitlySharedDataPointer`, which a
copy of the object shares. The data consists of the members of the class: values, pointers to
messages that are created when they are first dereferenced, and lists, hashes and variants that
contain objects. An object of the class `Any` refers to its private data the same way.
-/

namespace QtGrpc.Protobuf.Objects

open Sharing

/-- The class of an object: a generated message type, or `QtProtobuf::Any` with its handler. -/
inductive ObjectClass where
  | message (t : Nat)
  | any (h : Nat)
deriving DecidableEq, Repr

/-- Where in the data of an object another object is: the message or the `Any` of a field, an
element of a list or the value of an entry of a hash, the content of a oneof. -/
inductive Step where
  | field (i : Nat)
  | item (i k : Nat)
  | oneof (j : Nat)
deriving DecidableEq, Repr

/-- The member an object is part of. -/
def Step.member : Step → Member
  | .field i | .item i _ => .field i
  | .oneof j => .oneof j

/-- A data member, apart from the objects in it. -/
inductive Slot where
  | value (v : Value)
  /-- `QProtobufLazyMessagePointer`. -/
  | pointer (t : Nat)
  | any (h : Nat)
  | list (c : ObjectClass) (size : Nat)
  | hash (keys : List Scalar) (t : Nat)
  /-- `QProtobufOneof` with a value that is no object. -/
  | oneof (fieldNumber : Nat) (v : Value)
  | oneofObject (fieldNumber : Nat) (c : ObjectClass)

/-- What an object consists of besides the objects in its data. -/
structure ObjectData where
  metaObject : ObjectClass
  unknownEntries : List (Nat × List Bytes)
  member : Member → Slot

abbrev Object := Tree Step ObjectData

/-- The variables of a program. -/
abbrev World := Forest Step ObjectData

abbrev Place := Sharing.Place Step

def slot (o : Object) (x : Member) : Slot :=
  (o.label?.map (·.member x)).getD (.value .null)

/-- The objects of a list as the content of a property. -/
def contentOf (c : ObjectClass) (ms : List Message) : Value :=
  match c with
  | .message t => .messages t ms
  | .any h => .custom h ms

/-- A single object as the content of a property. -/
def singleOf (c : ObjectClass) (m : Message) : Value :=
  match c with
  | .message t => .message t m
  | .any h => .custom h [m]

/-- The content of a member whose objects stand for the messages that are given. -/
def Slot.content (present : Step → Bool) (sub : Step → Message) : Member → Slot → Value
  | _, .value v => v
  | .field i, .pointer t => if present (.field i) then .message t (sub (.field i)) else .null
  | .field i, .any h => .custom h [sub (.field i)]
  | .field i, .list c size => contentOf c ((List.range size).map fun k => sub (.item i k))
  | .field i, .hash keys t => .hash (keys.zipIdx.map fun (key, k) => (key, .message t (sub (.item i k))))
  | _, .oneof n v => .oneof n v
  | .oneof j, .oneofObject n c => .oneof n (singleOf c (sub (.oneof j)))
  | _, _ => .null

/-- The message an object stands for. -/
def message : Object → Message
  | .absent => .mk (fun _ => .null) []
  | .node _ data child =>
    .mk (fun x => (data.member x).content (fun s => (child s).isPresent) (fun s => message (child s)) x)
      data.unknownEntries

variable (S : Schema) (isAny : Nat → Bool)

/-- A member as the constructor of the data class leaves it. -/
def newSlot (f : FieldInfo) : Slot :=
  match f.presence, f.type with
  | .oneof _, _ | .optional, _ => .value .null
  | _, .message t => .pointer t
  | _, .messageList t => .list (.message t) 0
  | _, .hash _ (.message t) => .hash [] t
  | _, .custom h false => if isAny h then .any h else .value (.custom h [])
  | _, .custom h true => if isAny h then .list (.any h) 0 else .value (.custom h [])
  | _, type => .value (type.initialValue S)

/-- The data of a new object. -/
def newData : ObjectClass → ObjectData
  | .message t => ⟨.message t, [], fun
    | .field i => ((S.message t).fields[i]?.map (newSlot S isAny)).getD (.value .null)
    | .oneof _ => .oneof 0 .null⟩
  | .any h => ⟨.any h, [], fun
    | .field 0 => .value (.scalar ⟨.string, ""⟩)
    | .field 1 => .value (.scalar ⟨.bytes, []⟩)
    | _ => .value .null⟩

/-- A new object. An `Any` among its members is constructed with it. -/
def newObject (c : ObjectClass) (a : Nat) : Object :=
  .node a (newData S isAny c) fun
    | .field i =>
      match (newData S isAny c).member (.field i) with
      | .any h => .node (a + 1 + i) (newData S isAny (.any h)) fun _ => .absent
      | _ => .absent
    | _ => .absent

/-- The number of blocks that are reserved for a new object. -/
def newBlocks : ObjectClass → Nat
  | .message t => 1 + (S.message t).fields.length
  | .any _ => 1

end QtGrpc.Protobuf.Objects
