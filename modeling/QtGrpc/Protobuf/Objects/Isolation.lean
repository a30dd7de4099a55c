import QtGrpc.Protobuf.Objects.Accessors
import QtGrpc.Protobuf.Objects.Creation

/-!
# Objects are isolated from their copies

A program constructs, copies, reads and changes objects in any order. An accessor that changes an
object detaches it first, but some write to the data of an object as they find it: the getters and
comparisons that create a message, the getters of oneofs and the `_p` getters, whose result refers
to this data, and the setters of `Any`. As long as these go to data that no other object refers to,
the program with its shared data cannot be told from one in which every copy is a deep copy.
-/

namespace QtGrpc.Protobuf.Objects

open Sharing

/-- How a program gets at a message in the data of an object in order to change it. -/
inductive Access where
  /-- The mutable getter of a message field. -/
  | field (i t : Nat)
  /-- The `_p` getter of a message field. -/
  | fieldPointer (i t : Nat)
  /-- The getter of a oneof member. -/
  | oneof (j t : Nat)
  /-- The `_p` getter of a oneof member. -/
  | oneofPointer (j fieldNumber t : Nat)

def Access.step : Access → Step
  | .field i _ | .fieldPointer i _ => .field i
  | .oneof j _ | .oneofPointer j _ _ => .oneof j

/-- An object that is reached from a variable. The last access comes first. -/
structure Reference where
  root : Nat
  accesses : List Access := []

def Reference.place (r : Reference) : Place := ⟨r.root, r.accesses.map Access.step⟩

/-- The setters, by the templates they are printed from. -/
inductive Setter where
  | plain (i : Nat)
  | floatingPoint (i : Nat)
  | complex (i : Nat)
  | optional (i : Nat)
  | oneof (j : Nat)
  | message (i t : Nat)

/-- What a program does with its variables. -/
inductive Op where
  | construct (v : Nat) (c : ObjectClass)
  /-- A copy construction or an assignment. -/
  | copy (r : Reference) (q : Place)
  | swap (u v : Nat)
  | destroy (v : Nat)
  /-- The getter of a message field of a constant object. -/
  | get (q : Place) (i t : Nat)
  | compare (p q : Place)
  | reach (r : Reference)
  | clearMessage (r : Reference) (i : Nat)
  | clearOneof (r : Reference) (j : Nat)
  | clearOptional (r : Reference) (i : Nat)
  /-- The argument of a setter is what the field is in another object. -/
  | set (r : Reference) (s : Setter) (q : Place)
  | setPointer (r : Reference) (i t : Nat) (pointer : Option Nat)
  | setAny (r : Reference) (x : Member) (v : Value)

/-- The variables an operation names. -/
def Op.variables : Op → List Nat
  | .construct v _ | .destroy v => [v]
  | .swap u v => [u, v]
  | .get q _ _ => [q.root]
  | .compare p q => [p.root, q.root]
  | .copy r _ | .reach r | .clearMessage r _ | .clearOneof r _ | .clearOptional r _
  | .setAny r _ _ => [r.root]
  | .set r _ q => [r.root, q.root]
  | .setPointer r _ _ pointer => r.root :: pointer.toList

section

variable (S : Schema) (isAny : Nat → Bool) (order : HashOrder)
  (customEqual : Nat → List Message → List Message → Bool) (fuel : Nat) (mode : Mode)

def access (W : World) (p : Place) : Access → World
  | .field i t => getterMessageMutable S isAny mode W p i t
  | .fieldPointer i t => privateGetterMessage S isAny mode W p i t
  | .oneof j t => getterOneofMessage S isAny mode W p j t
  | .oneofPointer j fieldNumber t => privateGetterOneofMessage S isAny mode W p j fieldNumber t

def reach (root : Nat) : List Access → World → World
  | [], W => W
  | a :: accesses, W =>
    access S isAny mode (reach root accesses W) ⟨root, accesses.map Access.step⟩ a

def set (W : World) (p q : Place) : Setter → Option World
  | .plain i => setter S isAny mode W p order customEqual fuel i q
  | .floatingPoint i => setterFloatingPoint mode W p customEqual i q
  | .complex i => setterComplex S isAny mode W p order customEqual fuel i q
  | .optional i => setterOptional S isAny mode W p order customEqual fuel i q
  | .oneof j => setterOneof S isAny mode W p order customEqual fuel j q
  | .message i t => setterMessage S isAny mode W p order customEqual fuel i t q

def step (W : World) : Op → Option World
  | .construct v c =>
    some ⟨Function.update W.tree v (newObject S isAny c W.next), W.next + newBlocks S c⟩
  | .copy r q =>
    let W := reach S isAny mode r.root r.accesses W
    some (W.put mode r.place (W.get q))
  | .swap u v => some { W with tree := Function.update (Function.update W.tree u (W.tree v)) v (W.tree u) }
  | .destroy v => some { W with tree := Function.update W.tree v .absent }
  | .get q i t => some (getterMessage S isAny mode W q i t)
  | .compare p q => (comparesEqual S order customEqual isAny mode fuel W p q).map Compared.world
  | .reach r => some (reach S isAny mode r.root r.accesses W)
  | .clearMessage r i => some (clearMessage mode (reach S isAny mode r.root r.accesses W) r.place i)
  | .clearOneof r j => some (clearOneof mode (reach S isAny mode r.root r.accesses W) r.place j)
  | .clearOptional r i => some (clearOptional mode (reach S isAny mode r.root r.accesses W) r.place i)
  | .set r s q =>
    set S isAny order customEqual fuel mode (reach S isAny mode r.root r.accesses W) r.place q s
  | .setPointer r i t pointer =>
    some (privateSetterMessage S isAny mode (reach S isAny mode r.root r.accesses W) r.place i t pointer)
  | .setAny r x v => some (setAnyMember mode (reach S isAny mode r.root r.accesses W) r.place x v)

def run : List Op → World → Option World
  | [], W => some W
  | op :: ops, W => (step S isAny order customEqual fuel mode W op).bind (run ops)

end

/-! ## Writes that find data of their own -/

section

variable (S : Schema) (isAny : Nat → Bool) (order : HashOrder)
  (customEqual : Nat → List Message → List Message → Bool) (fuel : Nat)

/-- The result of a getter that does not detach refers to data that is not shared. -/
def Access.Careful (W : World) (p : Place) : Access → Prop
  | .field _ _ => True
  | .fieldPointer i _ => hasMessage W p i = true → W.Unshared p
  | .oneof _ _ => W.Unshared p
  | .oneofPointer j fieldNumber _ => holdsFieldAt W p j fieldNumber = true → W.Unshared p

def ReachesCarefully (root : Nat) : List Access → World → Prop
  | [], _ => True
  | a :: accesses, W => ReachesCarefully root accesses W ∧
    a.Careful (reach S isAny .own root accesses W) ⟨root, accesses.map Access.step⟩

/-- A comparison creates messages only in data that is not shared. -/
def ComparesCarefully (W : World) (compared : Option Compared) : Prop :=
  ∀ r, compared = some r → ∀ c ∈ r.created, W.Unshared c

def GetsCarefully (W : World) (p : Place) (i : Nat) : Prop :=
  hasMessage W p i = true ∨ W.Unshared p

def Setter.Careful (W : World) (p q : Place) : Setter → Prop
  | .plain i | .complex i | .optional i =>
    ComparesCarefully W (compareMember S isAny .own W p order customEqual fuel (.field i) q)
  | .oneof j =>
    ComparesCarefully W (compareMember S isAny .own W p order customEqual fuel (.oneof j) q)
  | .floatingPoint _ => True
  | .message i t =>
    GetsCarefully W p i ∧
      ComparesCarefully (lazyGet S isAny .own W p i t)
        (comparesEqual S order customEqual isAny .own fuel (lazyGet S isAny .own W p i t)
          (p.sub (.field i)) (q.sub (.field i)))

/-- What an operation writes without detaching goes to data that no other object refers to. -/
def Op.Careful (W : World) : Op → Prop
  | .construct _ _ | .swap _ _ | .destroy _ => True
  | .get q i _ => GetsCarefully W q i
  | .compare p q => ComparesCarefully W (comparesEqual S order customEqual isAny .own fuel W p q)
  | .copy r _ | .reach r | .clearMessage r _ | .clearOneof r _ | .clearOptional r _ =>
    ReachesCarefully S isAny r.root r.accesses W
  | .set r s q => ReachesCarefully S isAny r.root r.accesses W ∧
    s.Careful S isAny order customEqual fuel (Objects.reach S isAny .own r.root r.accesses W) r.place q
  | .setPointer r i _ _ => ReachesCarefully S isAny r.root r.accesses W ∧
    GetsCarefully (Objects.reach S isAny .own r.root r.accesses W) r.place i
  | .setAny r _ _ => ReachesCarefully S isAny r.root r.accesses W ∧
    (Objects.reach S isAny .own r.root r.accesses W).Unshared r.place

/-- Every operation of a run of the value model is careful where it takes place. -/
def RunsCarefully : List Op → World → Prop
  | [], _ => True
  | op :: ops, W => op.Careful S isAny order customEqual fuel W ∧
    ∀ W', step S isAny order customEqual fuel .own W op = some W' → RunsCarefully ops W'

end

/-! ## Functions that agree in both modes -/

variable {S : Schema} {isAny : Nat → Bool} {order : HashOrder}
  {customEqual : Nat → List Message → List Message → Bool} {fuel : Nat}
  {vs : List Nat} {W : World} {p q : Place}

/-- A function does the same in both modes, and leaves all but some variables as they are. -/
structure Refines (vs : List Nat) (W : World) (f : Mode → World) : Prop where
  agree : f .shared = f .own
  fresh : (f .own).Fresh
  others : ∀ v ∉ vs, (f .own).tree v = W.tree v

/-- The same of a function that may have no result. -/
def Advances (vs : List Nat) (W : World) (f : Mode → Option World) : Prop :=
  ∀ W', f .own = some W' → f .shared = some W' ∧ W'.Fresh ∧ ∀ v ∉ vs, W'.tree v = W.tree v

/-- What does nothing does the same in both modes. -/
theorem Refines.id (h : W.Fresh) : Refines vs W fun _ => W := ⟨rfl, h, fun _ _ => rfl⟩

/-- Two functions that agree in both modes do so one after the other. -/
theorem Refines.andThen {f : Mode → World} (h : Refines vs W f) (g : Mode → World → World)
    (h' : Refines vs (f .own) fun mode => g mode (f .own)) :
    Refines vs W fun mode => g mode (f mode) :=
  ⟨(congrArg (g .shared) h.agree).trans h'.agree, h'.fresh,
    fun v hv => (h'.others v hv).trans (h.others v hv)⟩

/-- A function that agrees in both modes does so as one that may have no result. -/
theorem Refines.advances {f : Mode → World} (h : Refines vs W f) :
    Advances vs W fun mode => some (f mode) := by
  rintro W' ⟨⟩
  exact ⟨congrArg some h.agree, h.fresh, h.others⟩

/-- A function that agrees in both modes, and then one that may have no result. -/
theorem Refines.andAdvances {f : Mode → World} (h : Refines vs W f)
    (g : Mode → World → Option World) (h' : Advances vs (f .own) fun mode => g mode (f .own)) :
    Advances vs W fun mode => g mode (f mode) := by
  intro W' hW'
  obtain ⟨hshared, hfresh, hothers⟩ := h' W' hW'
  exact ⟨(congrArg (g .shared) h.agree).trans hshared, hfresh,
    fun v hv => (hothers v hv).trans (h.others v hv)⟩

/-- Where both modes have one result, which has only got new messages, they agree. -/
theorem Refines.of_grown {f : Mode → World} (h : f .shared = f .own) (hgrown : Grown vs W (f .own)) :
    Refines vs W f := ⟨h, hgrown.fresh, hgrown.others⟩

/-- Writing into data that no other object refers to is the same in both modes. -/
theorem refines_write (hW : W.Fresh) (hp : p.root ∈ vs) (hunshared : W.Unshared p)
    {g : Content Step ObjectData → Content Step ObjectData}
    (hg : ∀ c, (∀ x, (c.child x).Below W.next) → ∀ x, ((g c).child x).Below W.next) :
    Refines vs W fun mode => W.write mode p g := by
  refine ⟨Forest.write_shared_eq_own hunshared g, ?_, fun v hv => ?_⟩
  · have hfresh := hW.write p (Nat.le_refl _) hg
    rw [Forest.write_own_eq_modify] at hfresh ⊢
    exact hfresh
  · simp only [Forest.write_own_eq_modify]
    refine Forest.tree_modify_of_ne W p _ ?_
    rintro rfl
    exact hv hp

/-- Putting another object in a place that only its owners reach is the same in both modes. -/
theorem refines_put (hW : W.Fresh) (hp : p.root ∈ vs) (hexclusive : W.Exclusive p) {o : Object}
    (ho : o.Below W.next) : Refines vs W fun mode => W.put mode p o := by
  refine ⟨Forest.put_shared_eq_own hexclusive o, ?_, fun v hv => ?_⟩
  · have hfresh := hW.put p (Nat.le_refl _) ho
    rw [Forest.put_own_eq_modify] at hfresh ⊢
    exact hfresh
  · simp only [Forest.put_own_eq_modify]
    refine Forest.tree_modify_of_ne W p _ ?_
    rintro rfl
    exact hv hp

/-! ## Detaching -/

/-- Detaching leaves both modes with the same objects: a shared block is copied in one of them. -/
theorem refines_detach (hW : W.Fresh) (hp : p.root ∈ vs) (hexclusive : W.Exclusive p) :
    Refines vs W fun mode => detach mode W p := by
  unfold detach
  cases hnode : W.get p with
  | absent => exact .id hW
  | node a data child =>
    simp only
    refine ⟨?_, ?_, fun v hv => ?_⟩
    · rw [Forest.put_shared_eq_own hexclusive]
    · refine hW.put p (Nat.le_succ _) ⟨Nat.lt_succ_self _, fun s => ?_⟩
      have hbelow := hW.get p
      rw [hnode] at hbelow
      exact (hbelow.2 s).mono (Nat.le_succ _)
    · simp only [Forest.put_own_eq_modify]
      refine Forest.tree_modify_of_ne W p _ ?_
      rintro rfl
      exact hv hp

/-- Detached data is not shared. -/
theorem detach_unshared (hW : W.Fresh) (p : Place) : (detach .own W p).Unshared p := by
  unfold detach
  cases hnode : W.get p with
  | absent =>
    intro a other ha
    rw [hnode] at ha
    cases ha
  | node a data child => exact Forest.unshared_renew hW hnode

/-- Detaching takes no block back. -/
theorem detach_next_le (W : World) (p : Place) : W.next ≤ (detach .own W p).next := by
  unfold detach
  cases W.get p with
  | absent => exact Nat.le_refl _
  | node => exact Nat.le_succ _

/-- The members of data that is not shared are reached through it only. -/
theorem exclusive_sub (h : W.Unshared p) (x : Step) : W.Exclusive (p.sub x) := by
  rintro owner y ⟨⟩
  exact h

/-- A variable is reached through itself only. -/
theorem exclusive_root (v : Nat) : W.Exclusive ⟨v, []⟩ := by
  rintro owner x ⟨⟩

/-- A place that only its owners reach is still one after messages were created. -/
theorem Grown.exclusive {W' : World} (h : Grown vs W W') (hW : W.Fresh) (hp : W.Exclusive p) :
    W'.Exclusive p := fun owner x howner => h.unshared hW (hp owner x howner)

/-- A getter of a message agrees in both modes if it creates nothing in shared data. -/
theorem refines_lazyGet (hW : W.Fresh) (hp : p.root ∈ vs) {i : Nat} (h : GetsCarefully W p i)
    (t : Nat) : Refines vs W fun mode => lazyGet S isAny mode W p i t :=
  .of_grown (lazyGet_shared_eq_own h t) (lazyGet_grown hW i t hp)

/-! ## Accesses -/

/-- The value of a oneof is kept if it has the type, or a new message is attached as its value. -/
theorem ensureRawValue_eq_attach (W : World) (p : Place) (j t : Nat) :
    ensureRawValue S isAny .own W p j t =
      if holdsType W p j t then W
      else W.attach p (.oneof j) (fun data => { data with
          member := Function.update data.member (.oneof j)
            (.oneofObject (fieldNumberAt W p j) (.message t)) })
        (newObject S isAny (.message t) W.next) (W.next + newBlocks S (.message t)) := rfl

/-- A oneof gets a message of its type in both modes, in data that is not shared. -/
theorem refines_ensureRawValue (hW : W.Fresh) (hp : p.root ∈ vs) (h : W.Unshared p) (j t : Nat) :
    Refines vs W fun mode => ensureRawValue S isAny mode W p j t := by
  have hseparate := newObject_separate S isAny (.message t) W.next
  refine ⟨?_, ?_, fun v hv => ?_⟩
  · simp only [ensureRawValue, Forest.write_shared_eq_own h]
  · rw [ensureRawValue_eq_attach]
    split
    · exact hW
    · exact hW.attach p _ _ (Nat.le_add_right _ _) hseparate.below
  · rw [ensureRawValue_eq_attach]
    split
    · rfl
    · refine tree_attach_of_ne W p _ _ _ _ ?_
      rintro rfl
      exact hv hp

/-- Data that is not shared is still not shared when its oneof has got its message. -/
theorem ensureRawValue_unshared (hW : W.Fresh) (h : W.Unshared p) (j t : Nat) :
    (ensureRawValue S isAny .own W p j t).Unshared p := by
  rw [ensureRawValue_eq_attach]
  split
  · exact h
  · exact h.attach hW _ _ (newObject_separate S isAny (.message t) W.next)

/-- After a careful access the data it was made in is not shared. -/
theorem access_spec (hW : W.Fresh) (hp : p.root ∈ vs) (hexclusive : W.Exclusive p) {a : Access}
    (h : a.Careful W p) :
    Refines vs W (fun mode => access S isAny mode W p a) ∧
      (access S isAny .own W p a).Unshared p := by
  have hdetach := refines_detach hW hp hexclusive
  have hunshared := detach_unshared hW p
  cases a with
  | field i t =>
    exact ⟨hdetach.andThen (fun mode V => lazyGet S isAny mode V p i t)
        (refines_lazyGet hdetach.fresh hp (.inr hunshared) t),
      (lazyGet_grown hdetach.fresh i t hp).unshared hdetach.fresh hunshared⟩
  | fieldPointer i t =>
    simp only [access, privateGetterMessage]
    cases hset : hasMessage W p i with
    | true =>
      exact ⟨refines_lazyGet hW hp (.inl hset) t, (lazyGet_grown hW i t hp).unshared hW (h hset)⟩
    | false =>
      exact ⟨hdetach.andThen (fun mode V => lazyGet S isAny mode V p i t)
        (refines_lazyGet hdetach.fresh hp (.inr hunshared) t),
        (lazyGet_grown hdetach.fresh i t hp).unshared hdetach.fresh hunshared⟩
  | oneof j t => exact ⟨refines_ensureRawValue hW hp h j t, ensureRawValue_unshared hW h j t⟩
  | oneofPointer j fieldNumber t =>
    simp only [access, privateGetterOneofMessage]
    cases hholds : holdsFieldAt W p j fieldNumber with
    | true =>
      exact ⟨refines_ensureRawValue hW hp (h hholds) j t, ensureRawValue_unshared hW (h hholds) j t⟩
    | false =>
      exact ⟨hdetach.andThen (fun mode V => ensureRawValue S isAny mode V p j t)
        (refines_ensureRawValue hdetach.fresh hp hunshared j t),
        ensureRawValue_unshared hdetach.fresh hunshared j t⟩

/-- The data a reference leads into is not shared. -/
theorem reach_spec (hW : W.Fresh) {root : Nat} (hroot : root ∈ vs) (accesses : List Access)
    (h : ReachesCarefully S isAny root accesses W) :
    Refines vs W (fun mode => reach S isAny mode root accesses W) ∧
      (reach S isAny .own root accesses W).Exclusive ⟨root, accesses.map Access.step⟩ := by
  induction accesses with
  | nil => exact ⟨.id hW, exclusive_root root⟩
  | cons a accesses ih =>
    obtain ⟨hreach, hexclusive⟩ := ih h.1
    obtain ⟨haccess, hunshared⟩ := access_spec hreach.fresh hroot hexclusive h.2
    exact ⟨hreach.andThen (fun mode V => access S isAny mode V _ a) haccess, exclusive_sub hunshared a.step⟩

/-! ## Operations on an object that has been reached -/

/-- A member of data that is not shared is assigned an object alike in both modes. -/
theorem refines_assignMember (hW : W.Fresh) (hp : p.root ∈ vs) (hunshared : W.Unshared p) (x : Member)
    {source : Object} (hsource : source.Below W.next) :
    Refines vs W fun mode => assignMember mode W p x source := by
  refine refines_write hW hp hunshared fun c hc s => ?_
  dsimp only
  split
  · exact hsource.child s
  · exact hc s

/-- A member of data that is not shared is assigned a value alike in both modes. -/
theorem refines_assignSlot (hW : W.Fresh) (hp : p.root ∈ vs) (hunshared : W.Unshared p) (x : Member)
    (v : Slot) : Refines vs W fun mode => assignSlot mode W p x v := by
  refine refines_write hW hp hunshared fun c hc s => ?_
  dsimp only
  split
  · trivial
  · exact hc s

/-- A setter of a value detaches first, and agrees in both modes. -/
theorem refines_detach_assignSlot (hW : W.Fresh) (hp : p.root ∈ vs) (hexclusive : W.Exclusive p)
    (x : Member) (v : Slot) :
    Refines vs W fun mode => assignSlot mode (detach mode W p) p x v :=
  have hdetach := refines_detach hW hp hexclusive
  hdetach.andThen (fun mode V => assignSlot mode V p x v)
    (refines_assignSlot hdetach.fresh hp (detach_unshared hW p) x v)

/-- A setter of an object detaches first, and agrees in both modes. -/
theorem refines_detach_put (hW : W.Fresh) (hp : p.root ∈ vs) (hexclusive : W.Exclusive p) (x : Step)
    {o : Object} (ho : o.Below W.next) :
    Refines vs W fun mode => (detach mode W p).put mode (p.sub x) o :=
  have hdetach := refines_detach hW hp hexclusive
  hdetach.andThen (fun mode V => V.put mode (p.sub x) o)
    (refines_put hdetach.fresh (p := p.sub x) hp (exclusive_sub (detach_unshared hW p) x)
      (ho.mono (detach_next_le W p)))

/-- A message field is cleared alike in both modes. -/
theorem refines_clearMessage (hW : W.Fresh) (hp : p.root ∈ vs) (hexclusive : W.Exclusive p)
    (i : Nat) : Refines vs W fun mode => clearMessage mode W p i := by
  unfold clearMessage
  split
  · exact refines_detach_put hW hp hexclusive _ trivial
  · exact .id hW

/-- A oneof is cleared alike in both modes. -/
theorem refines_clearOneof (hW : W.Fresh) (hp : p.root ∈ vs) (hexclusive : W.Exclusive p)
    (j : Nat) : Refines vs W fun mode => clearOneof mode W p j := by
  unfold clearOneof
  split
  · exact .id hW
  · exact refines_detach_assignSlot hW hp hexclusive _ _

/-- An optional field is cleared alike in both modes. -/
theorem refines_clearOptional (hW : W.Fresh) (hp : p.root ∈ vs) (hexclusive : W.Exclusive p)
    (i : Nat) : Refines vs W fun mode => clearOptional mode W p i := by
  unfold clearOptional
  split
  · exact .id hW
  · exact refines_detach_assignSlot hW hp hexclusive _ _

/-- A variable gets another object. -/
theorem refines_update (hW : W.Fresh) {v n : Nat} (hv : v ∈ vs) (hn : W.next ≤ n) {o : Object}
    (ho : o.Below n) :
    Refines vs W fun _ => { tree := Function.update W.tree v o, next := n } := by
  refine ⟨rfl, fun u => ?_, fun u hu => Function.update_of_ne ?_ _ _⟩
  · change (Function.update W.tree v o u).Below n
    by_cases hu : u = v
    · rw [hu, Function.update_self]
      exact ho
    · rw [Function.update_of_ne hu]
      exact (hW u).mono hn
  · rintro rfl
    exact hu hv

/-- The setter that takes a pointer agrees in both modes if its getter creates nothing in shared
data. -/
theorem refines_privateSetterMessage (hW : W.Fresh) (hp : p.root ∈ vs) (hexclusive : W.Exclusive p)
    {i : Nat} (h : GetsCarefully W p i) (t : Nat) {pointer : Option Nat}
    (hpointer : pointer.toList ⊆ vs) :
    Refines vs W fun mode => privateSetterMessage S isAny mode W p i t pointer := by
  have hget : Refines vs W fun mode => lazyGet S isAny mode W p i t := refines_lazyGet hW hp h t
  have hgrown : Grown vs W (lazyGet S isAny .own W p i t) := lazyGet_grown hW i t hp
  cases pointer with
  | none => exact hget
  | some v =>
    have hv : v ∈ vs := hpointer (List.mem_singleton_self v)
    have hdetach := refines_detach hget.fresh hp (hgrown.exclusive hW hexclusive)
    have hput := refines_put hdetach.fresh (p := p.sub (.field i)) hp
      (exclusive_sub (detach_unshared hget.fresh p) _) (hdetach.fresh v)
    have hmove := refines_update hput.fresh hv (Nat.le_refl _) (o := .absent) trivial
    exact hget.andThen (fun mode V =>
        let V := detach mode V p
        let V := V.put mode (p.sub (.field i)) (V.tree v)
        { V with tree := Function.update V.tree v .absent })
      (hdetach.andThen (fun mode V =>
          let V := V.put mode (p.sub (.field i)) (V.tree v)
          { V with tree := Function.update V.tree v .absent })
        (hput.andThen (fun _ V => { V with tree := Function.update V.tree v .absent }) hmove))

/-! ## Comparisons and setters -/

/-- A comparison that agrees in both modes, and then a function of its result that does. -/
theorem Agrees.advances {compared : Mode → Option Compared} {f : Mode → Compared → World}
    (h : Agrees vs W (compared .shared) (compared .own))
    (hcareful : ComparesCarefully W (compared .own))
    (hf : ∀ r, Grown vs W r.world → Refines vs r.world fun mode => f mode r) :
    Advances vs W fun mode => (compared mode).map (f mode) := by
  intro W' hW'
  obtain ⟨r, hr, rfl⟩ := Option.map_eq_some_iff.mp hW'
  obtain ⟨hgrown, hshared⟩ := h r hr
  have hrefines := hf r hgrown
  refine ⟨?_, hrefines.fresh, fun v hv => (hrefines.others v hv).trans (hgrown.others v hv)⟩
  simp only [hshared (hcareful r hr), Option.map_some, hrefines.agree]

/-- The comparison of one member agrees in both modes. -/
theorem compareMember_agrees (hW : W.Fresh) (hp : p.root ∈ vs) (hq : q.root ∈ vs) (x : Member) :
    Agrees vs W (compareMember S isAny .shared W p order customEqual fuel x q)
      (compareMember S isAny .own W p order customEqual fuel x q) :=
  runChecks_agrees hp hq
    (fun x y _ hV => comparesEqual_agrees (p := p.sub x) (q := q.sub y) fuel hp hq hV) _ hW

/-- A setter that compares first agrees in both modes. -/
theorem advances_assignUnlessEqual (compared : Mode → Option Compared) (hW : W.Fresh)
    (hp : p.root ∈ vs) (hexclusive : W.Exclusive p)
    (h : Agrees vs W (compared .shared) (compared .own))
    (hcareful : ComparesCarefully W (compared .own)) (x : Member) (q : Place) :
    Advances vs W fun mode => assignUnlessEqual mode p (compared mode) x q := by
  refine h.advances hcareful fun r hgrown => ?_
  split
  · exact .id hgrown.fresh
  · have hdetach := refines_detach hgrown.fresh hp (hgrown.exclusive hW hexclusive)
    refine hdetach.andThen (fun mode V => assignMember mode V p x (r.world.get q)) ?_
    exact refines_assignMember hdetach.fresh hp (detach_unshared hgrown.fresh p) x
      ((hgrown.fresh.get q).mono (detach_next_le r.world p))

/-- The setter of a message agrees in both modes. -/
theorem advances_setterMessage (hW : W.Fresh) (hp : p.root ∈ vs) (hq : q.root ∈ vs)
    (hexclusive : W.Exclusive p) {i t : Nat}
    (h : Setter.Careful S isAny order customEqual fuel W p q (.message i t)) :
    Advances vs W fun mode => setterMessage S isAny mode W p order customEqual fuel i t q := by
  have hget : Refines vs W fun mode => lazyGet S isAny mode W p i t := refines_lazyGet hW hp h.1 t
  have hgrown : Grown vs W (lazyGet S isAny .own W p i t) := lazyGet_grown hW i t hp
  refine hget.andAdvances (fun mode V => (comparesEqual S order customEqual isAny mode fuel V
    (p.sub (.field i)) (q.sub (.field i))).map fun result =>
      if result.equal then result.world
      else (detach mode result.world p).put mode (p.sub (.field i))
        (result.world.get (q.sub (.field i)))) ?_
  refine (comparesEqual_agrees (p := p.sub (.field i)) (q := q.sub (.field i)) fuel hp hq
    hget.fresh).advances h.2 fun r hgrown' => ?_
  split
  · exact .id hgrown'.fresh
  · exact refines_detach_put hgrown'.fresh hp
      ((hgrown.trans hgrown').exclusive hW hexclusive) _ (hgrown'.fresh.get _)

/-- Every setter agrees in both modes. -/
theorem set_advances (hW : W.Fresh) (hp : p.root ∈ vs) (hq : q.root ∈ vs)
    (hexclusive : W.Exclusive p) {s : Setter} (h : s.Careful S isAny order customEqual fuel W p q) :
    Advances vs W fun mode => set S isAny order customEqual fuel mode W p q s := by
  cases s with
  | plain i | complex i | optional i | oneof j =>
    exact advances_assignUnlessEqual
      (fun mode => compareMember S isAny mode W p order customEqual fuel _ q) hW hp hexclusive
      (compareMember_agrees hW hp hq _) h _ q
  | floatingPoint i =>
    refine advances_assignUnlessEqual (fun _ => some ⟨W, [], _⟩) hW hp hexclusive
      (agrees_some hW _) ?_ _ q
    rintro r ⟨⟩ c hc
    cases hc
  | message i t => exact advances_setterMessage hW hp hq hexclusive h

/-- The setters of an `Any` write to data that is not shared, alike in both modes. -/
theorem refines_setAnyMember (hW : W.Fresh) (hp : p.root ∈ vs) (h : W.Unshared p) (x : Member)
    (v : Value) : Refines vs W fun mode => setAnyMember mode W p x v := by
  unfold setAnyMember
  split
  · exact .id hW
  · exact refines_assignSlot hW hp h x _

/-! ## Runs -/

/-- Every operation agrees in both modes and changes only the variables it names. -/
theorem step_advances (hW : W.Fresh) {op : Op} (h : op.Careful S isAny order customEqual fuel W) :
    Advances op.variables W fun mode => step S isAny order customEqual fuel mode W op := by
  have hhead (r : Reference) (more : List Nat) : r.place.root ∈ r.root :: more := List.mem_cons_self
  have hreach {r : Reference} (more : List Nat) (hr : ReachesCarefully S isAny r.root r.accesses W) :=
    @reach_spec _ _ (r.root :: more) _ hW _ List.mem_cons_self r.accesses hr
  cases op with
  | construct v c =>
    exact (refines_update hW (List.mem_singleton_self v) (Nat.le_add_right _ _)
      (newObject_separate S isAny c W.next).below).advances
  | copy r q =>
    obtain ⟨hrefines, hexclusive⟩ := hreach [] h
    exact (hrefines.andThen (fun mode V => V.put mode r.place (V.get q))
      (refines_put hrefines.fresh (hhead r []) hexclusive (hrefines.fresh.get q))).advances
  | swap u v =>
    have hfirst : Refines [u, v] W fun _ => { W with tree := Function.update W.tree u (W.tree v) } :=
      refines_update hW (by simp) (Nat.le_refl _) (hW v)
    have hsecond : Refines [u, v] { W with tree := Function.update W.tree u (W.tree v) } fun _ => _ :=
      refines_update hfirst.fresh (v := v) (by simp) (Nat.le_refl _) (hW u)
    exact (hfirst.andThen (fun _ V => { V with tree := Function.update V.tree v (W.tree u) })
      hsecond).advances
  | destroy v =>
    exact (refines_update hW (List.mem_singleton_self v) (Nat.le_refl _) (o := .absent) trivial).advances
  | get q i t => exact (refines_lazyGet hW (List.mem_singleton_self _) h t).advances
  | compare p q =>
    refine (comparesEqual_agrees fuel ?_ ?_ hW).advances h fun r hgrown => .id hgrown.fresh
    · simp [Op.variables]
    · simp [Op.variables]
  | reach r => exact (hreach [] h).1.advances
  | clearMessage r i =>
    obtain ⟨hrefines, hexclusive⟩ := hreach [] h
    exact (hrefines.andThen (fun mode V => clearMessage mode V r.place i)
      (refines_clearMessage hrefines.fresh (hhead r []) hexclusive i)).advances
  | clearOneof r j =>
    obtain ⟨hrefines, hexclusive⟩ := hreach [] h
    exact (hrefines.andThen (fun mode V => clearOneof mode V r.place j)
      (refines_clearOneof hrefines.fresh (hhead r []) hexclusive j)).advances
  | clearOptional r i =>
    obtain ⟨hrefines, hexclusive⟩ := hreach [] h
    exact (hrefines.andThen (fun mode V => clearOptional mode V r.place i)
      (refines_clearOptional hrefines.fresh (hhead r []) hexclusive i)).advances
  | set r s q =>
    obtain ⟨hrefines, hexclusive⟩ := hreach [q.root] h.1
    exact hrefines.andAdvances
      (fun mode V => set S isAny order customEqual fuel mode V r.place q s)
      (set_advances hrefines.fresh (hhead r [q.root]) (by simp) hexclusive h.2)
  | setPointer r i t pointer =>
    obtain ⟨hrefines, hexclusive⟩ := hreach pointer.toList h.1
    exact (hrefines.andThen (fun mode V => privateSetterMessage S isAny mode V r.place i t pointer)
      (refines_privateSetterMessage hrefines.fresh (hhead r _) hexclusive h.2 t
        (List.subset_cons_self _ _))).advances
  | setAny r x v =>
    obtain ⟨hrefines, -⟩ := hreach [] h.1
    exact (hrefines.andThen (fun mode V => setAnyMember mode V r.place x v)
      (refines_setAnyMember hrefines.fresh (hhead r []) h.2 x v)).advances

/-- A careful run of the program is the run of the value model. -/
theorem run_shared_of_own {ops : List Op} {W' : World} (hW : W.Fresh)
    (h : RunsCarefully S isAny order customEqual fuel ops W)
    (hrun : run S isAny order customEqual fuel .own ops W = some W') :
    run S isAny order customEqual fuel .shared ops W = some W' ∧ W'.Fresh := by
  induction ops generalizing W with
  | nil =>
    cases hrun
    exact ⟨rfl, hW⟩
  | cons op ops ih =>
    obtain ⟨V, hstep, hrest⟩ := Option.bind_eq_some_iff.mp hrun
    obtain ⟨hshared, hfresh, -⟩ := step_advances hW h.1 V hstep
    obtain ⟨hrun', hfresh'⟩ := ih hfresh (h.2 V hstep) hrest
    exact ⟨(congrArg (Option.bind · _) hshared).trans hrun', hfresh'⟩

/-- A program before it has constructed anything. -/
def World.empty : World := ⟨fun _ => .absent, 0⟩

/-- Where there is no object, every block is free. -/
theorem fresh_empty : World.empty.Fresh := fun _ => trivial

variable (S isAny order customEqual fuel) in
/-- Sharing cannot be observed: the program does what the value model does, and an operation leaves
every object alone whose variable it does not name. -/
theorem isolates {ops : List Op} {op : Op} {W' : World}
    (h : RunsCarefully S isAny order customEqual fuel ops .empty)
    (hrun : run S isAny order customEqual fuel .own ops .empty = some W)
    (hcareful : op.Careful S isAny order customEqual fuel W)
    (hstep : step S isAny order customEqual fuel .own W op = some W') :
    run S isAny order customEqual fuel .shared ops .empty = some W ∧
      step S isAny order customEqual fuel .shared W op = some W' ∧
      ∀ v ∉ op.variables, message (W'.tree v) = message (W.tree v) := by
  obtain ⟨hshared, hfresh⟩ := run_shared_of_own fresh_empty h hrun
  obtain ⟨hstep', -, hothers⟩ := step_advances hfresh hcareful W' hstep
  exact ⟨hshared, hstep', fun v hv => congrArg message (hothers v hv)⟩

/-- A box with a label. -/
def boxSchema : Schema where
  message
    | 0 => ⟨"Box", [{ fieldNumber := 1, jsonName := "label", type := .message 1 }],
        by decide, by decide, by decide⟩
    | 1 => ⟨"Label", [{ fieldNumber := 1, jsonName := "size", type := .scalar .int32 }],
        by decide, by decide, by decide⟩
    | _ => .withoutFields "Empty"
  enumKeys _ := []
  findHandler _ := none
  typeName _ := ""

/-- A box gets a label and is copied. -/
def copiedBox : List Op :=
  [.construct 0 (.message 0), .reach ⟨0, [.field 0 1]⟩, .copy ⟨1, []⟩ ⟨0, []⟩]

/-- The copy keeps the label that is taken off the box. -/
theorem isolates_copiedBox :
    ∃ W W', run boxSchema (fun _ => false) .ofInsertion (fun _ _ _ => false) 2 .shared copiedBox .empty
        = some W ∧
      step boxSchema (fun _ => false) .ofInsertion (fun _ _ _ => false) 2 .shared W
        (.clearMessage ⟨0, []⟩ 0) = some W' ∧
      message (W'.tree 1) = message (W.tree 1) := by
  obtain ⟨W, hW⟩ : ∃ W, run boxSchema (fun _ => false) .ofInsertion (fun _ _ _ => false) 2 .own
      copiedBox .empty = some W := ⟨_, rfl⟩
  obtain ⟨W', hW'⟩ : ∃ W', step boxSchema (fun _ => false) .ofInsertion (fun _ _ _ => false) 2 .own W
      (.clearMessage ⟨0, []⟩ 0) = some W' := ⟨_, rfl⟩
  have hcareful : RunsCarefully boxSchema (fun _ => false) .ofInsertion (fun _ _ _ => false) 2
      copiedBox .empty :=
    ⟨trivial, fun _ _ => ⟨⟨trivial, trivial⟩, fun _ _ => ⟨trivial, fun _ _ => trivial⟩⟩⟩
  have hclear : Op.Careful boxSchema (fun _ => false) .ofInsertion (fun _ _ _ => false) 2 W
      (.clearMessage ⟨0, []⟩ 0) := trivial
  obtain ⟨hrun, hstep, hothers⟩ := isolates boxSchema (fun _ => false) .ofInsertion
    (fun _ _ _ => false) 2 hcareful hW hclear hW'
  exact ⟨W, W', hrun, hstep, hothers 1 (by simp [Op.variables])⟩

end QtGrpc.Protobuf.Objects
