import QtGrpc.Protobuf.Objects.Comparison

/-!
# The generated accessors

What the special members, getters, setters and clear functions of a generated class do to the
objects of a program. A setter gets its argument as the value that the same field has in another
object. Every function is given in two modes: `Mode.shared` is the program, whose writes go to
blocks of shared data, and `Mode.own` is the plain value model, in which an object keeps its data to
itself.
-/

namespace QtGrpc.Protobuf.Objects

open Sharing

section

variable (mode : Mode) (W : World) (p : Place)

/-- `QExplicitlySharedDataPointer::detach`. The object gets data of its own. Where no other object
refers to its data this cannot be told from keeping it. -/
def detach : World :=
  match W.get p with
  | .absent => W
  | .node _ data child => { W.put mode p (.node W.next data child) with next := W.next + 1 }

/-- A member is assigned what it is in another object. -/
def assignMember (x : Member) (source : Object) : World :=
  W.write mode p fun c =>
    { label := { c.label with member := Function.update c.label.member x (slot source x) }
      child := fun s => if s.member = x then source.child s else c.child s }

/-- A member is assigned something that contains no objects. -/
def assignSlot (x : Member) (v : Slot) : World :=
  W.write mode p fun c =>
    { label := { c.label with member := Function.update c.label.member x v }
      child := fun s => if s.member = x then .absent else c.child s }

end

section

variable (S : Schema) (isAny : Nat → Bool) (mode : Mode) (W : World) (p : Place)

/-! ## Message fields -/

def hasMessage (i : Nat) : Bool := (W.get (p.sub (.field i))).isPresent

def getterMessage (i t : Nat) : World := lazyGet S isAny mode W p i t

def getterMessageMutable (i t : Nat) : World := lazyGet S isAny mode (detach mode W p) p i t

def privateGetterMessage (i t : Nat) : World :=
  let W := if hasMessage W p i then W else detach mode W p
  lazyGet S isAny mode W p i t

def clearMessage (i : Nat) : World :=
  if hasMessage W p i then (detach mode W p).put mode (p.sub (.field i)) .absent else W

/-- The pointer passed is that of a variable, whose object is owned by the field from then on, or the
pointer of the field itself. -/
def privateSetterMessage (i t : Nat) (pointer : Option Nat) : World :=
  let W := lazyGet S isAny mode W p i t
  match pointer with
  | none => W
  | some τ =>
    let W := detach mode W p
    let W := W.put mode (p.sub (.field i)) (W.tree τ)
    { W with tree := Function.update W.tree τ .absent }

/-! ## Oneofs -/

/-- `QProtobufOneof::holdsField`. -/
def holdsFieldAt (j fieldNumber : Nat) : Bool :=
  match slot (W.get p) (.oneof j) with
  | .oneof n v => holdsField (n, v) fieldNumber
  | .oneofObject n _ => n == fieldNumber && fieldNumber != 0
  | _ => false

/-- The variant of a oneof holds a message of this type. -/
def holdsType (j t : Nat) : Bool :=
  match slot (W.get p) (.oneof j) with
  | .oneofObject _ c => c == .message t
  | _ => false

def fieldNumberAt (j : Nat) : Nat :=
  match slot (W.get p) (.oneof j) with
  | .oneof n _ | .oneofObject n _ => n
  | _ => 0

/-- `QProtobufOneof::ensureRawValue`. The field number stays. -/
def ensureRawValue (j t : Nat) : World :=
  if holdsType W p j t then W
  else
    { W.write mode p fun c =>
        { label := { c.label with
            member := Function.update c.label.member (.oneof j)
              (.oneofObject (fieldNumberAt W p j) (.message t)) }
          child := Function.update c.child (.oneof j) (newObject S isAny (.message t) W.next) } with
      next := W.next + newBlocks S (.message t) }

def getterOneofMessage (j t : Nat) : World := ensureRawValue S isAny mode W p j t

def privateGetterOneofMessage (j fieldNumber t : Nat) : World :=
  let W := if holdsFieldAt W p j fieldNumber then W else detach mode W p
  ensureRawValue S isAny mode W p j t

def clearOneof (j : Nat) : World :=
  if fieldNumberAt W p j = 0 then W
  else assignSlot mode (detach mode W p) p (.oneof j) (.oneof 0 .null)

def clearOptional (i : Nat) : World :=
  match slot (W.get p) (.field i) with
  | .value .null => W
  | _ => assignSlot mode (detach mode W p) p (.field i) (.value .null)

/-! ## Setters -/

variable (order : HashOrder) (customEqual : Nat → List Message → List Message → Bool) (fuel : Nat)

/-- The comparison of a member of two objects, as a setter makes it. -/
def compareMember (x : Member) (q : Place) : Option Compared :=
  runChecks S isAny mode (comparesEqual S order customEqual isAny mode fuel) p q
    (memberChecks order customEqual false x (slot (W.get p) x) (slot (W.get q) x)) W

/-- A setter that assigns unless the member compares equal with the argument. -/
def assignUnlessEqual (compared : Option Compared) (x : Member) (q : Place) : Option World :=
  compared.map fun result =>
    if result.equal then result.world
    else assignMember mode (detach mode result.world p) p x (result.world.get q)

def setter (i : Nat) (q : Place) : Option World :=
  assignUnlessEqual mode p (compareMember S isAny mode W p order customEqual fuel (.field i) q)
    (.field i) q

/-- `std::signbit`. -/
def signbit : Value → Bool
  | .scalar ⟨.float, v⟩ => BitVec.msb v
  | .scalar ⟨.double, v⟩ => BitVec.msb v
  | _ => false

def slotValue : Slot → Value
  | .value v => v
  | _ => .null

/-- Zeros of different sign are told apart. -/
def setterFloatingPoint (i : Nat) (q : Place) : Option World :=
  let old := slotValue (slot (W.get p) (.field i))
  let new := slotValue (slot (W.get q) (.field i))
  assignUnlessEqual mode p
    (some ⟨W, [], valuesEqual customEqual old new && signbit old == signbit new⟩) (.field i) q

def setterComplex (i : Nat) (q : Place) : Option World :=
  setter S isAny mode W p order customEqual fuel i q

/-- An empty optional compares different from every value. -/
def setterOptional (i : Nat) (q : Place) : Option World :=
  setter S isAny mode W p order customEqual fuel i q

/-- `QProtobufOneof::isEqual` compares the field number, the type and the value. -/
def setterOneof (j : Nat) (q : Place) : Option World :=
  assignUnlessEqual mode p (compareMember S isAny mode W p order customEqual fuel (.oneof j) q)
    (.oneof j) q

def setterMessage (i t : Nat) (q : Place) : Option World :=
  let W := lazyGet S isAny mode W p i t
  (comparesEqual S order customEqual isAny mode fuel W (p.sub (.field i)) (q.sub (.field i))).map
    fun result =>
      if result.equal then result.world
      else
        (detach mode result.world p).put mode (p.sub (.field i))
          (result.world.get (q.sub (.field i)))

end

/-- `Any::setTypeUrl` and `Any::setValue`. -/
def setAnyMember (mode : Mode) (W : World) (p : Place) (x : Member) (v : Value) : World :=
  if valuesEqual (fun _ _ _ => false) (slotValue (slot (W.get p) x)) v then W
  else assignSlot mode W p x (.value v)

end QtGrpc.Protobuf.Objects
