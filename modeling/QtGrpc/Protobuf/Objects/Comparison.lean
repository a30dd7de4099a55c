import QtGrpc.Protobuf.Objects.Object
import QtGrpc.Protobuf.SerializerBase

/-!
# Comparing objects

`comparesEqual` of a generated class compares the members in turn until two differ. A message
pointer that is dereferenced for this is set from then on, in the data of the object it belongs to.
-/

namespace QtGrpc.Protobuf.Objects

open Sharing

/-- `==` of two lists. -/
def listsEqual {α : Type} (eq : α → α → Bool) (l r : List α) : Bool :=
  l.length == r.length && (l.zip r).all fun (a, b) => eq a b

/-- `==` of two hashes. -/
def hashesEqual {κ β : Type} [BEq κ] (eq : β → β → Bool) (l r : List (κ × β)) : Bool :=
  l.length == r.length && r.all fun (key, b) => (l.lookup key).any (eq · b)

/-- `==` of scalars and enumerators. -/
def elementsEqual : Value → Value → Bool
  | .scalar a, .scalar b => a.isEqual b
  | .enumerator _ a, .enumerator _ b => a == b
  | _, _ => false

/-- `==` of values without objects. That of a type with a handler is a parameter. -/
def valuesEqual (customEqual : Nat → List Message → List Message → Bool) : Value → Value → Bool
  | .null, .null => true
  | .scalars k as, .scalars k' bs =>
    listsEqual Scalar.isEqual (as.map fun a => ⟨k, a⟩) (bs.map fun b => ⟨k', b⟩)
  | .enumerators _ as, .enumerators _ bs => as == bs
  | .hash as, .hash bs => hashesEqual elementsEqual as bs
  | .custom h as, .custom _ bs => customEqual h as bs
  | l, r => elementsEqual l r

/-- An operand of the conjunction that a comparison evaluates: a comparison of values, of two
message pointers, or of two objects in the data. -/
inductive Check where
  | values (equal : Bool)
  | pointers (i t : Nat)
  | objects (x y : Step)

/-- The non-oneof fields of a message type and then its oneofs. -/
def comparedMembers (S : Schema) (t : Nat) : List Member :=
  let fields := (S.message t).fields
  (fields.zipIdx.filterMap fun (f, i) => match f.presence with
    | .oneof _ => none
    | _ => some (.field i)) ++
  (fields.filterMap fun f => match f.presence with
    | .oneof j => some (.oneof j)
    | _ => none).dedup

section

variable (S : Schema) (order : HashOrder)
  (customEqual : Nat → List Message → List Message → Bool)

/-- The keys of a hash as an iteration goes over them. -/
def iteratedKeys (keys : List Scalar) : List Scalar :=
  (order.entries (keys.map fun key => (key, .null))).map (·.1)

/-- The comparison of a member. A oneof compares equal with itself without a look at its content. -/
def memberChecks (sameData : Bool) : Member → Slot → Slot → List Check
  | _, .value v, .value w => [.values (valuesEqual customEqual v w)]
  | .field i, .pointer t, .pointer _ => [.pointers i t]
  | .field i, .any _, .any _ => [.objects (.field i) (.field i)]
  | .field i, .list _ size, .list _ size' =>
    if size = size' then (List.range size).map fun k => .objects (.item i k) (.item i k)
    else [.values false]
  | .field i, .hash keys _, .hash keys' _ =>
    if keys.length = keys'.length then
      (iteratedKeys order keys').map fun key =>
        match keys.idxOf? key, keys'.idxOf? key with
        | some k, some k' => .objects (.item i k) (.item i k')
        | _, _ => .values false
    else [.values false]
  | .oneof _, .oneof n v, .oneof n' w =>
    [.values (sameData || n == n' && valuesEqual customEqual v w)]
  | .oneof j, .oneofObject n c, .oneofObject n' c' =>
    if sameData then [.values true]
    else if n = n' ∧ c = c' then [.objects (.oneof j) (.oneof j)] else [.values false]
  | _, _, _ => [.values false]

/-- The operands of `comparesEqual` for two objects with these data. -/
def objectChecks (sameData : Bool) (l r : ObjectData) : List Check :=
  match l.metaObject, r.metaObject with
  | .message t, .message _ =>
    .values (hashesEqual (· == ·) l.unknownEntries r.unknownEntries) ::
      (comparedMembers S t).flatMap fun x =>
        memberChecks order customEqual sameData x (l.member x) (r.member x)
  | .any _, .any _ =>
    [.field 0, .field 1].flatMap fun x =>
      memberChecks order customEqual sameData x (l.member x) (r.member x)
  | _, _ => [.values false]

/-- What a comparison leaves behind: the variables, the objects in whose data it has created a
message, and its result. -/
structure Compared where
  world : World
  created : List Place := []
  equal : Bool

variable (isAny : Nat → Bool) (mode : Mode)

/-- A message is created in the data of an object. -/
def create (W : World) (p : Place) (i t : Nat) : World :=
  { W.write mode p fun c =>
      { c with child := Function.update c.child (.field i) (newObject S isAny (.message t) W.next) } with
    next := W.next + newBlocks S (.message t) }

/-- `QProtobufLazyMessagePointer::get`. -/
def lazyGet (W : World) (p : Place) (i t : Nat) : World :=
  if (W.get (p.sub (.field i))).isPresent then W else create S isAny mode W p i t

section

variable (compare : World → Place → Place → Option Compared) (p q : Place)

/-- The comparison of two message pointers: `l == r || *l == *r`. -/
def comparePointers (i t : Nat) (W : World) : Option Compared :=
  let l := p.sub (.field i)
  let r := q.sub (.field i)
  match (W.get l).isPresent, (W.get r).isPresent with
  | false, false => some ⟨W, [], true⟩
  | true, true =>
    (compare W l r).bind fun x =>
      if x.equal then some x
      else (compare x.world l r).map fun y => { y with created := x.created ++ y.created }
  | false, true =>
    (compare (create S isAny mode W p i t) l r).map fun x => { x with created := p :: x.created }
  | true, false =>
    (compare (create S isAny mode W q i t) l r).map fun x => { x with created := q :: x.created }

def runCheck (W : World) : Check → Option Compared
  | .values equal => some ⟨W, [], equal⟩
  | .pointers i t => comparePointers S isAny mode compare p q i t W
  | .objects x y => compare W (p.sub x) (q.sub y)

/-- The operands of a conjunction are evaluated until one is false. -/
def runChecks : List Check → World → Option Compared
  | [], W => some ⟨W, [], true⟩
  | check :: checks, W =>
    (runCheck S isAny mode compare p q W check).bind fun x =>
      if x.equal then
        (runChecks checks x.world).map fun y => { y with created := x.created ++ y.created }
      else some x

end

/-- `comparesEqual` of the objects at two places, with a bound on the depth of the recursion. -/
def comparesEqual : Nat → World → Place → Place → Option Compared
  | 0, _, _, _ => none
  | fuel + 1, W, p, q =>
    match W.get p, W.get q with
    | .node a l _, .node b r _ =>
      runChecks S isAny mode (comparesEqual fuel) p q
        (objectChecks S order customEqual (a == b) l r) W
    | _, _ => none

end

end QtGrpc.Protobuf.Objects
