import Mathlib.Logic.Function.Basic
import Mathlib.Data.List.Induction

/-!
# Objects that share their data

An object refers to a block of data and several objects may refer to the same block; the data of an
object contains further objects. A forest shows what each variable leads to: every node carries the
address of the block it is stored in. A write that goes to a block reaches every object with this
address, a write of the plain value semantics only the object it is made through. The two agree
where no other object has the address.
-/

namespace Sharing

variable {ι α : Type}

/-- An object with the address of its data, its label and the objects in its data. -/
inductive Tree (ι α : Type) where
  | absent
  | node (address : Nat) (label : α) (child : ι → Tree ι α)

/-- What a block of data consists of. -/
structure Content (ι α : Type) where
  label : α
  child : ι → Tree ι α

namespace Tree

def isPresent : Tree ι α → Bool
  | absent => false
  | node .. => true

def address? : Tree ι α → Option Nat
  | absent => none
  | node address _ _ => some address

def label? : Tree ι α → Option α
  | absent => none
  | node _ label _ => some label

def child : Tree ι α → ι → Tree ι α
  | absent, _ => absent
  | node _ _ child, x => child x

/-- The object at the end of a path, whose last step comes first. -/
def get (t : Tree ι α) : List ι → Tree ι α
  | [] => t
  | x :: path => (t.get path).child x

/-- The same object with other data at the same address. -/
def mapContent (g : Content ι α → Content ι α) : Tree ι α → Tree ι α
  | absent => absent
  | node address label child => node address (g ⟨label, child⟩).label (g ⟨label, child⟩).child

/-- One object in the data changes. -/
def mapChild [DecidableEq ι] (x : ι) (f : Tree ι α → Tree ι α) : Tree ι α → Tree ι α :=
  mapContent fun c => { c with child := Function.update c.child x (f (c.child x)) }

/-- The object at the end of a path changes. -/
def modify [DecidableEq ι] (f : Tree ι α → Tree ι α) : List ι → Tree ι α → Tree ι α
  | [] => f
  | x :: path => modify (mapChild x f) path

/-- A block of data changes, and with it every object that refers to it. -/
def writeBlock (a : Nat) (g : Content ι α → Content ι α) : Tree ι α → Tree ι α
  | absent => absent
  | node address label child =>
    let changed := fun x => (child x).writeBlock a g
    if address = a then node address (g ⟨label, changed⟩).label (g ⟨label, changed⟩).child
    else node address label changed

/-! ## Paths -/

/-- No step leads nowhere else. -/
@[simp] theorem get_nil (t : Tree ι α) : t.get [] = t := rfl

/-- The last step of a path comes first in its list. -/
@[simp] theorem get_cons (t : Tree ι α) (x : ι) (path : List ι) :
    t.get (x :: path) = (t.get path).child x := rfl

/-- A path from an object goes on from the end of the path to it. -/
theorem get_append (t : Tree ι α) (path above : List ι) :
    t.get (path ++ above) = (t.get above).get path := by
  induction path with
  | nil => rfl
  | cons x path ih => rw [List.cons_append, get_cons, get_cons, ih]

/-- Nothing is reached from no object. -/
@[simp] theorem get_absent (path : List ι) : (absent : Tree ι α).get path = absent := by
  induction path with
  | nil => rfl
  | cons x path ih => rw [get_cons, ih, child]

/-- An object keeps its address when its data change. -/
@[simp] theorem address?_mapContent (g : Content ι α → Content ι α) (t : Tree ι α) :
    (t.mapContent g).address? = t.address? := by
  cases t <;> rfl

/-- Every object has an address. -/
theorem address?_eq_none {t : Tree ι α} : t.address? = none ↔ t = absent := by
  cases t <;> simp [address?]

/-- What has an address is an object. -/
theorem isPresent_of_address? {t : Tree ι α} {a : Nat} (h : t.address? = some a) :
    t.isPresent = true := by
  cases t with
  | absent => cases h
  | node => rfl

/-- A block nobody refers to does not matter. -/
theorem writeBlock_of_forall_ne (a : Nat) (g : Content ι α → Content ι α) (t : Tree ι α)
    (h : ∀ path, (t.get path).address? ≠ some a) : t.writeBlock a g = t := by
  induction t with
  | absent => rfl
  | node address label child ih =>
    have hne : address ≠ a := fun heq => h [] (congrArg some heq)
    have hchild : (fun x => (child x).writeBlock a g) = child := by
      funext x
      refine ih x fun path => ?_
      have hpath := h (path ++ [x])
      rwa [get_append] at hpath
    rw [writeBlock]
    simp only [hne, if_false, hchild]

/-! ## Bounds on addresses -/

/-- All addresses are below a bound. -/
def Below (n : Nat) : Tree ι α → Prop
  | absent => True
  | node address _ child => address < n ∧ ∀ x, (child x).Below n

/-- Addresses below a bound are below a greater one. -/
theorem Below.mono {n k : Nat} {t : Tree ι α} (h : t.Below n) (hle : n ≤ k) : t.Below k := by
  induction t with
  | absent => trivial
  | node address label child ih => exact ⟨Nat.lt_of_lt_of_le h.1 hle, fun x => ih x (h.2 x)⟩

/-- Where the addresses of an object are below a bound, so are those of an object in its data. -/
theorem Below.child {n : Nat} {t : Tree ι α} (h : t.Below n) (x : ι) : (t.child x).Below n := by
  cases t with
  | absent => trivial
  | node address label child => exact h.2 x

/-- And so are those of an object at the end of a path. -/
theorem Below.get {n : Nat} {t : Tree ι α} (h : t.Below n) (path : List ι) :
    (t.get path).Below n := by
  induction path with
  | nil => exact h
  | cons x path ih => exact ih.child x

/-- The address at the end of a path is below the bound. -/
theorem Below.address_lt {n a : Nat} {t : Tree ι α} (h : t.Below n) {path : List ι}
    (ha : (t.get path).address? = some a) : a < n := by
  have hget := h.get path
  cases hnode : t.get path with
  | absent => simp [hnode, address?] at ha
  | node address label child =>
    rw [hnode] at hget ha
    obtain rfl : address = a := by simpa [address?] using ha
    exact hget.1

/-! ## Writes at the end of a path -/

variable [DecidableEq ι]

/-- An object keeps its address when an object in its data changes. -/
@[simp] theorem address?_mapChild (x : ι) (f : Tree ι α → Tree ι α) (t : Tree ι α) :
    (t.mapChild x f).address? = t.address? := address?_mapContent _ t

/-- The other objects in the data stay. -/
theorem child_mapChild_of_ne (f : Tree ι α → Tree ι α) (t : Tree ι α) {x y : ι} (h : y ≠ x) :
    (t.mapChild x f).child y = t.child y := by
  cases t with
  | absent => rfl
  | node address label child => exact Function.update_of_ne h _ _

/-- The object in the data is the changed one, if there are data. -/
theorem child_mapChild_self (f : Tree ι α → Tree ι α) {t : Tree ι α} (x : ι)
    (h : t.isPresent = true) : (t.mapChild x f).child x = f (t.child x) := by
  cases t with
  | absent => cases h
  | node address label child => exact Function.update_self _ _ _

/-- Only what a function makes of the object at the end of the path counts. -/
theorem modify_congr {f g : Tree ι α → Tree ι α} (path : List ι) (t : Tree ι α)
    (h : f (t.get path) = g (t.get path)) : modify f path t = modify g path t := by
  induction path generalizing f g with
  | nil => exact h
  | cons x path ih =>
    refine ih ?_
    cases hnode : t.get path with
    | absent => rfl
    | node address label child =>
      rw [get_cons, hnode] at h
      simp only [mapChild, mapContent]
      congr 2

/-- An object in the data that stays changes nothing. -/
theorem mapChild_id (x : ι) : mapChild x id = (id : Tree ι α → Tree ι α) := by
  funext t
  cases t with
  | absent => rfl
  | node address label child => simp [mapChild, mapContent]

/-- Nor does one at the end of a path. -/
theorem modify_id (path : List ι) (t : Tree ι α) : modify id path t = t := by
  induction path with
  | nil => rfl
  | cons x path ih => rw [modify, mapChild_id, ih]

/-- Nothing changes where there is no object. -/
theorem modify_of_absent {f : Tree ι α → Tree ι α} (hf : f absent = absent) {path : List ι}
    {t : Tree ι α} (h : t.get path = absent) : modify f path t = t := by
  rw [modify_congr path t (show f (t.get path) = id (t.get path) by rw [h, hf]; rfl), modify_id]

/-- What lies below the end of the path changes with it. -/
theorem get_modify_below (f : Tree ι α → Tree ι α) (path : List ι) (t : Tree ι α) (below : List ι)
    (h : (t.get path).isPresent = true) :
    (modify f path t).get (below ++ path) = (f (t.get path)).get below := by
  induction path generalizing f below with
  | nil => rw [List.append_nil, get_nil, modify]
  | cons x path ih =>
    have hnode : (t.get path).isPresent = true := by
      cases hnode : t.get path with
      | absent => simp [hnode, child, isPresent] at h
      | node => rfl
    rw [modify, List.append_cons, ih _ _ hnode, get_append, get_cons, get_nil,
      child_mapChild_self f x hnode, get_cons]

/-- Elsewhere the objects keep their addresses. -/
theorem address?_modify (f : Tree ι α → Tree ι α) (path : List ι) (t : Tree ι α)
    {other : List ι} (h : ¬ path <:+ other) :
    ((modify f path t).get other).address? = (t.get other).address? := by
  induction path generalizing f other with
  | nil => exact absurd List.nil_suffix h
  | cons x path ih =>
    by_cases hsuffix : path <:+ other
    · obtain ⟨below, rfl⟩ := hsuffix
      by_cases hnode : t.get path = absent
      · rw [modify, modify_of_absent rfl hnode]
      · have hpresent : (t.get path).isPresent = true := by
          cases hpath : t.get path with
          | absent => exact absurd hpath hnode
          | node => rfl
        rw [modify, get_modify_below _ _ _ _ hpresent, get_append]
        induction below using List.reverseRecOn with
        | nil => rw [get_nil, get_nil, address?_mapChild]
        | append_singleton below y _ =>
          have hne : y ≠ x := by
            rintro rfl
            exact h ⟨below, by simp⟩
          rw [get_append, get_append, get_cons, get_nil, get_cons, get_nil,
            child_mapChild_of_ne f _ hne]
    · exact ih _ hsuffix

/-! ## Blocks -/

/-- If all objects with an address lie below one object, the write takes place below it. -/
theorem writeBlock_eq_modify (a : Nat) (g : Content ι α → Content ι α) (t : Tree ι α)
    (path : List ι) (h : ∀ other, (t.get other).address? = some a → path <:+ other) :
    t.writeBlock a g = modify (writeBlock a g) path t := by
  induction path with
  | nil => rfl
  | cons x path ih =>
    rw [ih fun other hother => (List.suffix_cons x path).trans (h other hother), modify]
    refine modify_congr path t ?_
    cases hnode : t.get path with
    | absent => rfl
    | node address label child =>
      have hne : address ≠ a := by
        intro heq
        have hlength := (h path (by rw [hnode, ← heq]; rfl)).length_le
        rw [List.length_cons] at hlength
        omega
      have hothers (y : ι) (hy : y ≠ x) : (child y).writeBlock a g = child y := by
        refine writeBlock_of_forall_ne a g _ fun below hbelow => ?_
        have hget : t.get (below ++ y :: path) = (child y).get below := by
          rw [get_append, get_cons, hnode, Tree.child]
        obtain ⟨front, hfront⟩ := h (below ++ y :: path) (by rw [hget, hbelow])
        have heq := (List.append_inj' hfront rfl).2
        exact hy (List.cons.inj heq).1.symm
      have hchild : (fun y => (child y).writeBlock a g) =
          Function.update child x ((child x).writeBlock a g) := by
        funext y
        by_cases hy : y = x
        · rw [hy, Function.update_self]
        · rw [Function.update_of_ne hy, hothers y hy]
      rw [writeBlock]
      simp only [hne, if_false, hchild, mapChild, mapContent]

/-- A write to data that only one object refers to changes this object. -/
theorem writeBlock_eq_modify_mapContent {a : Nat} (g : Content ι α → Content ι α) {t : Tree ι α}
    {path : List ι} (hpath : (t.get path).address? = some a)
    (h : ∀ other, (t.get other).address? = some a → other = path) :
    t.writeBlock a g = modify (mapContent g) path t := by
  rw [writeBlock_eq_modify a g t path fun other hother => h other hother ▸ List.suffix_rfl]
  refine modify_congr path t ?_
  cases hnode : t.get path with
  | absent => rfl
  | node address label child =>
    obtain rfl : address = a := by simpa [hnode, address?] using hpath
    have hchild : (fun x => (child x).writeBlock address g) = child := by
      funext x
      refine writeBlock_of_forall_ne address g _ fun below hbelow => ?_
      have hget : t.get (below ++ x :: path) = (child x).get below := by
        rw [get_append, get_cons, hnode, Tree.child]
      have hlength := congrArg List.length (h (below ++ x :: path) (by rw [hget, hbelow]))
      simp at hlength
      omega
    rw [writeBlock]
    simp only [if_true, hchild, mapContent]

/-- A change at the end of a path keeps the addresses below the bound if it does there. -/
theorem Below.modify {n : Nat} {t : Tree ι α} (h : t.Below n) (path : List ι)
    {f : Tree ι α → Tree ι α} (hf : (t.get path).Below n → (f (t.get path)).Below n) :
    (modify f path t).Below n := by
  induction path generalizing f with
  | nil => exact hf h
  | cons x path ih =>
    refine ih fun hnode => ?_
    cases hget : t.get path with
    | absent => trivial
    | node address label child =>
      rw [hget] at hnode
      refine ⟨hnode.1, fun y => ?_⟩
      by_cases hy : y = x
      · subst hy
        have hchild : t.get (y :: path) = child y := by rw [get_cons, hget, Tree.child]
        have hchanged := hf (h.get _)
        rw [hchild] at hchanged
        simpa only [Function.update_self] using hchanged
      · simpa only [Function.update_of_ne hy] using hnode.2 y

end Tree

/-! ## Forests -/

/-- The object a variable leads to, or one in its data. The last step of the path comes first. -/
structure Place (ι : Type) where
  root : Nat
  path : List ι := []
deriving DecidableEq

def Place.sub (p : Place ι) (x : ι) : Place ι := { p with path := x :: p.path }

/-- The object whose data a place is in. -/
def Place.owner? (p : Place ι) : Option (Place ι × ι) :=
  match p.path with
  | [] => none
  | x :: path => some ({ p with path }, x)

/-- The variables, and the address of the next block. -/
structure Forest (ι α : Type) where
  tree : Nat → Tree ι α
  next : Nat := 0

/-- Whether a write goes to a block or to one object alone. -/
inductive Mode where
  | shared
  | own
deriving DecidableEq

namespace Forest

def get (W : Forest ι α) (p : Place ι) : Tree ι α := (W.tree p.root).get p.path

/-- No other object refers to the data of the object at this place. -/
def Unshared (W : Forest ι α) (p : Place ι) : Prop :=
  ∀ a other, (W.get p).address? = some a → (W.get other).address? = some a → other = p

/-- No other object refers to the data this place is in. -/
def Exclusive (W : Forest ι α) (p : Place ι) : Prop :=
  ∀ owner x, p.owner? = some (owner, x) → W.Unshared owner

/-- The blocks that are referred to have been handed out. -/
def Fresh (W : Forest ι α) : Prop := ∀ i, (W.tree i).Below W.next

/-- The address of an object at a place has been given out. -/
theorem Fresh.address_lt {W : Forest ι α} (h : W.Fresh) {p : Place ι} {a : Nat}
    (ha : (W.get p).address? = some a) : a < W.next := (h p.root).address_lt ha

/-- So have all addresses of an object at a place. -/
theorem Fresh.get {W : Forest ι α} (h : W.Fresh) (p : Place ι) : (W.get p).Below W.next :=
  (h p.root).get p.path

/-- A place within an object, as seen from the object. -/
theorem get_below (W : Forest ι α) (p : Place ι) (below : List ι) (x : ι) :
    W.get ⟨p.root, below ++ x :: p.path⟩ = ((W.get p).child x).get below := by
  simp only [Forest.get]
  rw [Tree.get_append, Tree.get_cons]

/-- Every object keeps its data, and new objects have data of their own. -/
structure Extends (W W' : Forest ι α) : Prop where
  next_le : W.next ≤ W'.next
  keeps : ∀ p a, (W.get p).address? = some a → (W'.get p).address? = some a
  new : ∀ p a, (W'.get p).address? = some a →
    (W.get p).address? = some a ∨ W.next ≤ a ∧ W'.Unshared p

/-- Nothing changes. -/
theorem Extends.refl (W : Forest ι α) : W.Extends W :=
  ⟨Nat.le_refl _, fun _ _ => id, fun _ _ => .inl⟩

/-- Objects are kept and made twice. -/
theorem Extends.trans {W W' W'' : Forest ι α} (h : W.Extends W') (h' : W'.Extends W'')
    (hfresh : W'.Fresh) : W.Extends W'' := by
  refine ⟨Nat.le_trans h.next_le h'.next_le, fun p a ha => h'.keeps p a (h.keeps p a ha), fun p a ha => ?_⟩
  rcases h'.new p a ha with hold | ⟨hle, hunshared⟩
  · rcases h.new p a hold with hold' | ⟨hle, hunshared⟩
    · exact .inl hold'
    · refine .inr ⟨hle, fun b other hb hother => ?_⟩
      obtain rfl : b = a := by simpa [hb] using ha
      rcases h'.new other b hother with hother' | ⟨hle', -⟩
      · exact hunshared b other hold hother'
      · exact absurd (hfresh.address_lt hold) (Nat.not_lt.mpr hle')
  · exact .inr ⟨Nat.le_trans h.next_le hle, hunshared⟩

/-- Data that is not shared stays so, and new data is not shared. -/
theorem Extends.unshared {W W' : Forest ι α} (h : W.Extends W') (hfresh : W.Fresh) {p : Place ι}
    (hp : (W.get p).isPresent = true → W.Unshared p) : W'.Unshared p := by
  intro a other ha hother
  rcases h.new p a ha with hold | ⟨-, hunshared⟩
  · have hpresent : (W.get p).isPresent = true := Tree.isPresent_of_address? hold
    rcases h.new other a hother with hother' | ⟨hle, -⟩
    · exact hp hpresent a other hold hother'
    · exact absurd (hfresh.address_lt hold) (Nat.not_lt.mpr hle)
  · exact hunshared a other ha hother

/-! ## Writes -/

variable [DecidableEq ι]

/-- One variable changes below a place. -/
def modify (W : Forest ι α) (p : Place ι) (f : Tree ι α → Tree ι α) : Forest ι α :=
  { W with tree := Function.update W.tree p.root (Tree.modify f p.path (W.tree p.root)) }

/-- The data of the object at a place changes, for the objects that share it too if writes go to
blocks. -/
def write (mode : Mode) (W : Forest ι α) (p : Place ι) (g : Content ι α → Content ι α) :
    Forest ι α :=
  match mode, (W.get p).address? with
  | _, none => W
  | .own, some _ => W.modify p (Tree.mapContent g)
  | .shared, some a => { W with tree := fun i => (W.tree i).writeBlock a g }

/-- The object at a place is replaced: a variable is assigned to, an object within another is part
of the data of that one. -/
def put (mode : Mode) (W : Forest ι α) (p : Place ι) (t : Tree ι α) : Forest ι α :=
  match p.owner? with
  | none => { W with tree := Function.update W.tree p.root t }
  | some (owner, x) =>
    W.write mode owner fun c => { c with child := Function.update c.child x t }

/-- Writing to data that are not shared is writing of the value semantics. -/
theorem write_shared_eq_own {W : Forest ι α} {p : Place ι} (h : W.Unshared p)
    (g : Content ι α → Content ι α) : W.write .shared p g = W.write .own p g := by
  unfold write
  cases haddress : (W.get p).address? with
  | none => rfl
  | some a =>
    simp only [modify]
    congr 1
    funext i
    by_cases hi : i = p.root
    · subst hi
      rw [Function.update_self]
      refine Tree.writeBlock_eq_modify_mapContent g haddress fun other hother => ?_
      exact congrArg Place.path (h a ⟨p.root, other⟩ haddress hother)
    · rw [Function.update_of_ne hi]
      refine Tree.writeBlock_of_forall_ne a g _ fun other hother => hi ?_
      exact congrArg Place.root (h a ⟨i, other⟩ haddress hother)

/-- So is replacing an object that is reached through its owner only. -/
theorem put_shared_eq_own {W : Forest ι α} {p : Place ι} (h : W.Exclusive p) (t : Tree ι α) :
    W.put .shared p t = W.put .own p t := by
  unfold put
  cases howner : p.owner? with
  | none => rfl
  | some o => exact write_shared_eq_own (h o.1 o.2 howner) _

/-- A change at a place with addresses given out keeps the others free. -/
theorem Fresh.modify {W : Forest ι α} (h : W.Fresh) (p : Place ι) {f : Tree ι α → Tree ι α}
    {n : Nat} (hn : W.next ≤ n) (hf : (W.get p).Below n → (f (W.get p)).Below n) :
    Fresh { W.modify p f with next := n } := by
  intro i
  change (Function.update W.tree p.root _ i).Below n
  by_cases hi : i = p.root
  · rw [hi, Function.update_self]
    exact ((h p.root).mono hn).modify p.path hf
  · rw [Function.update_of_ne hi]
    exact (h i).mono hn

/-- A write of the value semantics changes the object at the place. -/
theorem write_own_eq_modify (W : Forest ι α) (p : Place ι) (g : Content ι α → Content ι α) :
    W.write .own p g = W.modify p (Tree.mapContent g) := by
  unfold write
  cases haddress : (W.get p).address? with
  | none =>
    have habsent : (W.tree p.root).get p.path = .absent := Tree.address?_eq_none.mp haddress
    have htree : Tree.modify (Tree.mapContent g) p.path (W.tree p.root) = W.tree p.root :=
      Tree.modify_of_absent rfl habsent
    simp only [modify, htree, Function.update_eq_self]
  | some a => rfl

/-- Replacing of the value semantics forgets the object at the place. -/
theorem put_own_eq_modify (W : Forest ι α) (p : Place ι) (t : Tree ι α) :
    W.put .own p t = W.modify p fun _ => t := by
  obtain ⟨root, path⟩ := p
  cases path with
  | nil => rfl
  | cons x path => exact write_own_eq_modify W ⟨root, path⟩ _

/-- The other variables stay. -/
theorem tree_modify_of_ne (W : Forest ι α) (p : Place ι) (f : Tree ι α → Tree ι α) {v : Nat}
    (h : v ≠ p.root) : (W.modify p f).tree v = W.tree v := Function.update_of_ne h _ _

/-- A write with addresses given out keeps the others free. -/
theorem Fresh.write {W : Forest ι α} (h : W.Fresh) (p : Place ι) {g : Content ι α → Content ι α}
    {n : Nat} (hn : W.next ≤ n)
    (hg : ∀ c, (∀ x, (c.child x).Below n) → ∀ x, ((g c).child x).Below n) :
    Fresh { W.write .own p g with next := n } := by
  rw [write_own_eq_modify]
  refine h.modify p hn fun hbelow => ?_
  cases hnode : W.get p with
  | absent => trivial
  | node address label child =>
    rw [hnode] at hbelow
    exact ⟨hbelow.1, hg ⟨label, child⟩ hbelow.2⟩

/-- So does replacing by an object with such addresses. -/
theorem Fresh.put {W : Forest ι α} (h : W.Fresh) (p : Place ι) {t : Tree ι α} {n : Nat}
    (hn : W.next ≤ n) (ht : t.Below n) : Fresh { W.put .own p t with next := n } := by
  rw [put_own_eq_modify]
  exact h.modify p hn fun _ => ht

/-! ## Objects in blocks of their own -/

/-- No block is used twice, and all of them have been handed out between two numbers. -/
structure Separate (lo hi : Nat) (t : Tree ι α) : Prop where
  le : ∀ path a, (t.get path).address? = some a → lo ≤ a
  below : t.Below hi
  unique : ∀ path other a, (t.get path).address? = some a → (t.get other).address? = some a →
    other = path

/-- What a changed forest holds at a place: an object with the address it had, or one that lies
below the change. -/
theorem address?_modify {W : Forest ι α} {p : Place ι} (f : Tree ι α → Tree ι α)
    (hp : (W.get p).isPresent = true) (o : Place ι) :
    ((W.modify p f).get o).address? = (W.get o).address? ∨
      ∃ below, o = ⟨p.root, below ++ p.path⟩ ∧ (W.modify p f).get o = (f (W.get p)).get below := by
  obtain ⟨root, path⟩ := o
  by_cases hroot : root = p.root
  · subst hroot
    have htree : (W.modify p f).tree p.root = Tree.modify f p.path (W.tree p.root) :=
      Function.update_self _ _ _
    simp only [Forest.get, htree]
    by_cases hsuffix : p.path <:+ path
    · obtain ⟨below, rfl⟩ := hsuffix
      exact .inr ⟨below, rfl, Tree.get_modify_below f p.path _ below hp⟩
    · exact .inl (Tree.address?_modify f p.path _ hsuffix)
  · left
    simp only [Forest.get, tree_modify_of_ne W p f hroot]

/-- An object that is moved to a new block does not share it. -/
theorem unshared_renew {W : Forest ι α} (h : W.Fresh) {p : Place ι} {a n : Nat} {label : α}
    {child : ι → Tree ι α} (hp : W.get p = .node a label child) :
    Unshared { W.put .own p (.node W.next label child) with next := n } p := by
  rw [put_own_eq_modify]
  have hpresent : (W.get p).isPresent = true := by rw [hp]; rfl
  -- Every other object keeps its address, which has been handed out before.
  have haddress (o : Place ι) : o = p ∨
      ((W.modify p fun _ => .node W.next label child).get o).address? = (W.get o).address? := by
    rcases address?_modify (fun _ => .node W.next label child) hpresent o with heq | ⟨below, rfl, heq⟩
    · exact .inr heq
    · induction below using List.reverseRecOn with
      | nil => exact .inl rfl
      | append_singleton below x _ =>
        right
        rw [heq, List.append_assoc, List.singleton_append, get_below, hp, Tree.get_append]
        rfl
  have hself : ((W.modify p fun _ => .node W.next label child).get p).address? = some W.next := by
    have htree : (W.modify p fun _ => .node W.next label child).tree p.root =
        Tree.modify (fun _ => .node W.next label child) p.path (W.tree p.root) :=
      Function.update_self _ _ _
    have hget := Tree.get_modify_below (fun _ => .node W.next label child) p.path (W.tree p.root) []
      hpresent
    rw [List.nil_append] at hget
    simp only [Forest.get, htree, hget]
    rfl
  intro b other hb hother
  obtain rfl : b = W.next := Option.some.inj (hb.symm.trans hself)
  rcases haddress other with heq | heq
  · exact heq
  · exact absurd (h.address_lt (heq.symm.trans hother)) (Nat.lt_irrefl _)

/-- An object takes the place of one in the data of another. -/
def attach (W : Forest ι α) (p : Place ι) (x : ι) (label : α → α) (t : Tree ι α) (n : Nat) :
    Forest ι α :=
  { W.write .own p fun c => { label := label c.label, child := Function.update c.child x t } with
    next := n }

/-- Behind attaching, a place has the address it had, or it lies in what was attached. -/
theorem address?_attach {W : Forest ι α} {p : Place ι} (x : ι) (label : α → α) (t : Tree ι α)
    (n : Nat) (hp : (W.get p).isPresent = true) (o : Place ι) :
    ((W.attach p x label t n).get o).address? = (W.get o).address? ∨
      ∃ below, o = ⟨p.root, below ++ x :: p.path⟩ ∧ (W.attach p x label t n).get o = t.get below := by
  rw [attach, write_own_eq_modify]
  cases hnode : W.get p with
  | absent => rw [hnode] at hp; cases hp
  | node a l child =>
    rcases address?_modify (Tree.mapContent fun c =>
      { label := label c.label, child := Function.update c.child x t }) hp o with heq | ⟨below, rfl, heq⟩
    · exact .inl heq
    · rw [hnode] at heq
      induction below using List.reverseRecOn with
      | nil => exact .inl ((congrArg Tree.address? heq).trans (congrArg Tree.address? hnode).symm)
      | append_singleton below y _ =>
        rw [List.append_assoc, List.singleton_append] at heq ⊢
        by_cases hy : y = x
        · subst hy
          refine .inr ⟨below, rfl, heq.trans ?_⟩
          rw [Tree.get_append]
          exact congrArg (·.get below) (Function.update_self y t child)
        · refine .inl (congrArg Tree.address? (heq.trans ?_))
          rw [get_below, hnode, Tree.get_append]
          exact congrArg (·.get below) (Function.update_of_ne hy t child)

/-- Nothing is attached where there is no object. -/
theorem attach_of_absent {W : Forest ι α} {p : Place ι} (x : ι) (label : α → α) (t : Tree ι α)
    (n : Nat) (hp : (W.get p).isPresent = false) : W.attach p x label t n = { W with next := n } := by
  cases hnode : W.get p with
  | absent => simp only [attach, write, hnode, Tree.address?]
  | node => rw [hnode] at hp; cases hp

/-- Attaching what has addresses given out keeps the others free. -/
theorem Fresh.attach {W : Forest ι α} (h : W.Fresh) (p : Place ι) (x : ι) (label : α → α)
    {t : Tree ι α} {n : Nat} (hn : W.next ≤ n) (ht : t.Below n) :
    (W.attach p x label t n).Fresh := by
  refine h.write p hn fun c hc y => ?_
  by_cases hy : y = x
  · subst hy
    simpa only [Function.update_self] using ht
  · simpa only [Function.update_of_ne hy] using hc y

/-- A new object in the data of another shares nothing. -/
theorem Extends.attach {W : Forest ι α} (h : W.Fresh) {p : Place ι} {x : ι} (label : α → α)
    {t : Tree ι α} {n : Nat} (hn : W.next ≤ n) (ht : Separate W.next n t)
    (habsent : (W.get (p.sub x)).isPresent = false) : W.Extends (W.attach p x label t n) := by
  cases hp : (W.get p).isPresent with
  | false =>
    rw [attach_of_absent x label t n hp]
    exact ⟨hn, fun _ _ => id, fun _ _ => .inl⟩
  | true =>
    have hnone (below : List ι) : W.get ⟨p.root, below ++ x :: p.path⟩ = .absent := by
      have hchild : (W.get p).child x = .absent := by
        cases hchild : (W.get p).child x with
        | absent => rfl
        | node => rw [show W.get (p.sub x) = (W.get p).child x from rfl, hchild] at habsent; cases habsent
      rw [get_below, hchild, Tree.get_absent]
    refine ⟨hn, fun o a ha => ?_, fun o a ha => ?_⟩
    · rcases address?_attach x label t n hp o with heq | ⟨below, rfl, -⟩
      · exact heq.trans ha
      · rw [hnone] at ha
        cases ha
    · rcases address?_attach x label t n hp o with heq | ⟨below, rfl, heq⟩
      · exact .inl (heq.symm.trans ha)
      · have hle := ht.le below a (by rw [← heq, ha])
        refine .inr ⟨hle, fun b other hb hother => ?_⟩
        obtain rfl : b = a := Option.some.inj (hb.symm.trans ha)
        rcases address?_attach x label t n hp other with hold | ⟨below', rfl, heq'⟩
        · exact absurd (h.address_lt (hold.symm.trans hother)) (Nat.not_lt.mpr hle)
        · rw [ht.unique below below' b (by rw [← heq, ha]) (by rw [← heq', hother])]

/-- The object itself keeps its data to itself. -/
theorem Unshared.attach {W : Forest ι α} {p : Place ι} (hp : W.Unshared p) (h : W.Fresh) (x : ι)
    (label : α → α) {t : Tree ι α} {n : Nat} (ht : Separate W.next n t) :
    (W.attach p x label t n).Unshared p := by
  cases hpresent : (W.get p).isPresent with
  | false =>
    rw [attach_of_absent x label t n hpresent]
    exact hp
  | true =>
    intro a other ha hother
    have hself : (W.get p).address? = some a := by
      rcases address?_attach x label t n hpresent p with heq | ⟨below, heq, -⟩
      · exact heq.symm.trans ha
      · have hlength := congrArg (fun o : Place ι => o.path.length) heq
        simp at hlength
        omega
    rcases address?_attach x label t n hpresent other with heq | ⟨below, rfl, heq⟩
    · exact hp a other hself (heq.symm.trans hother)
    · have hle := ht.le below a (by rw [← heq, hother])
      exact absurd (h.address_lt hself) (Nat.not_lt.mpr hle)

end Forest

end Sharing
