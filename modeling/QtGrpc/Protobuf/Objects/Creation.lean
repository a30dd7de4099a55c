import QtGrpc.Protobuf.Objects.Comparison

/-!
# Messages that a read creates

A message field that is read while it is unset gets a message, in the data of the object it belongs
to. If no other object refers to this data, nobody else sees the new message, and the program does
what the value model does. A comparison creates such messages on both sides and changes nothing
else.
-/

namespace QtGrpc.Protobuf.Objects

open Sharing

variable {S : Schema} {isAny : Nat → Bool} {W : World} {p q : Place}

/-- A new object has blocks of its own. -/
theorem newObject_separate (S : Schema) (isAny : Nat → Bool) (c : ObjectClass) (a : Nat) :
    Forest.Separate a (a + newBlocks S c) (newObject S isAny c a) := by
  -- The object itself has the first block, an `Any` in a field that of the field.
  have haddress : ∀ path b, ((newObject S isAny c a).get path).address? = some b →
      path = [] ∧ b = a ∨ ∃ i, path = [.field i] ∧ b = a + 1 + i ∧ a + 1 + i < a + newBlocks S c := by
    intro path b hb
    induction path using List.reverseRecOn with
    | nil => exact .inl ⟨rfl, (Option.some.inj hb).symm⟩
    | append_singleton path s _ =>
      rw [Tree.get_append] at hb
      cases s with
      | item => simp [newObject, Tree.child, Tree.address?] at hb
      | oneof => simp [newObject, Tree.child, Tree.address?] at hb
      | field i =>
        simp only [newObject, Tree.get_cons, Tree.get_nil, Tree.child] at hb
        split at hb
        case h_2 => simp [Tree.address?] at hb
        case h_1 h hany =>
          have hpath : path = [] := by
            induction path using List.reverseRecOn with
            | nil => rfl
            | append_singleton path s _ =>
              simp [Tree.get_append, Tree.child, Tree.address?] at hb
          subst hpath
          refine .inr ⟨i, rfl, (Option.some.inj hb).symm, ?_⟩
          cases c with
          | any h => simp only [newData] at hany; split at hany <;> simp_all
          | message t =>
            simp only [newData, newBlocks] at hany ⊢
            cases hf : (S.message t).fields[i]? with
            | none => simp [hf] at hany
            | some f =>
              obtain ⟨hlt, -⟩ := List.getElem?_eq_some_iff.mp hf
              omega
  have hblocks : 0 < newBlocks S c := by cases c <;> simp [newBlocks]
  refine ⟨fun path b hb => ?_, ⟨by omega, fun s => ?_⟩, fun path other b hb hother => ?_⟩
  · obtain ⟨-, rfl⟩ | ⟨i, -, rfl, -⟩ := haddress path b hb <;> omega
  · cases s with
    | item => trivial
    | oneof => trivial
    | field i =>
      have hfield := haddress [.field i] (a + 1 + i)
      simp only [newObject, Tree.get_cons, Tree.get_nil, Tree.child] at hfield ⊢
      split at hfield
      case h_2 => trivial
      case h_1 =>
        obtain ⟨hpath, -⟩ | ⟨j, hpath, -, hlt⟩ := hfield rfl
        · cases hpath
        · obtain rfl : i = j := by simpa using hpath
          exact ⟨hlt, fun _ => trivial⟩
  · obtain ⟨rfl, rfl⟩ | ⟨i, rfl, rfl, -⟩ := haddress path b hb <;>
      obtain ⟨rfl, hb'⟩ | ⟨j, rfl, hb', -⟩ := haddress other _ hother
    · rfl
    · omega
    · omega
    · obtain rfl : i = j := by omega
      rfl

/-- What may have happened to the variables: messages have been created, in some of them. -/
structure Grown (vs : List Nat) (W W' : World) : Prop where
  fresh : W'.Fresh
  extend : W.Extends W'
  others : ∀ v ∉ vs, W'.tree v = W.tree v

/-- Where nothing happens, no variable changes. -/
theorem Grown.refl (h : W.Fresh) (vs : List Nat) : Grown vs W W := ⟨h, .refl W, fun _ _ => rfl⟩

/-- Messages are created one after the other. -/
theorem Grown.trans {vs : List Nat} {W' W'' : World} (h : Grown vs W W') (h' : Grown vs W' W'') :
    Grown vs W W'' :=
  ⟨h'.fresh, h.extend.trans h'.extend h.fresh, fun v hv => (h'.others v hv).trans (h.others v hv)⟩

/-- Data that is not shared is still not shared when messages have been created. -/
theorem Grown.unshared {vs : List Nat} {W' : World} (h : Grown vs W W') (hW : W.Fresh)
    (hp : W.Unshared p) : W'.Unshared p := h.extend.unshared hW fun _ => hp

/-- In the value model, a created message is attached to its field. -/
theorem create_eq_attach (W : World) (p : Place) (i t : Nat) :
    create S isAny .own W p i t = W.attach p (.field i) id (newObject S isAny (.message t) W.next)
      (W.next + newBlocks S (.message t)) := rfl

/-- A message is created in data that is not shared as in the value model. -/
theorem create_shared_eq_own (h : W.Unshared p) (i t : Nat) :
    create S isAny .shared W p i t = create S isAny .own W p i t := by
  simp only [create, Forest.write_shared_eq_own h]

/-- Only the variable of the place gets the attached object. -/
theorem tree_attach_of_ne (W : World) (p : Place) (x : Step) (label : ObjectData → ObjectData)
    (o : Object) (n : Nat) {v : Nat} (h : v ≠ p.root) : (W.attach p x label o n).tree v = W.tree v := by
  simp only [Forest.attach, Forest.write_own_eq_modify]
  exact Forest.tree_modify_of_ne W p _ h

/-- Creating a message in a field that has none is all that happens to the variables. -/
theorem create_grown (hW : W.Fresh) {i : Nat} (hunset : (W.get (p.sub (.field i))).isPresent = false)
    (t : Nat) {vs : List Nat} (hp : p.root ∈ vs) : Grown vs W (create S isAny .own W p i t) := by
  rw [create_eq_attach]
  have hseparate := newObject_separate S isAny (.message t) W.next
  refine ⟨hW.attach p _ _ (Nat.le_add_right _ _) hseparate.below,
    .attach hW _ (Nat.le_add_right _ _) hseparate hunset, fun v hv => tree_attach_of_ne W p _ _ _ _ ?_⟩
  rintro rfl
  exact hv hp

/-- A getter of a message creates that message at most. -/
theorem lazyGet_grown (hW : W.Fresh) (i t : Nat) {vs : List Nat} (hp : p.root ∈ vs) :
    Grown vs W (lazyGet S isAny .own W p i t) := by
  unfold lazyGet
  split
  · exact .refl hW vs
  · rename_i hunset
    exact create_grown hW (Bool.not_eq_true _ ▸ hunset) t hp

/-- A getter is that of the value model if the message is there or the data is not shared. -/
theorem lazyGet_shared_eq_own {i : Nat}
    (h : (W.get (p.sub (.field i))).isPresent = true ∨ W.Unshared p) (t : Nat) :
    lazyGet S isAny .shared W p i t = lazyGet S isAny .own W p i t := by
  unfold lazyGet
  split
  · rfl
  · rename_i hunset
    exact create_shared_eq_own (h.resolve_left hunset) i t

/-! ## Comparisons -/

/-- A comparison of the program against that of the value model: if it creates messages only in data
that is not shared, they have the same result. -/
def Agrees (vs : List Nat) (W : World) (shared own : Option Compared) : Prop :=
  ∀ r, own = some r → Grown vs W r.world ∧ ((∀ c ∈ r.created, W.Unshared c) → shared = some r)

section

variable {vs : List Nat} {order : HashOrder} {customEqual : Nat → List Message → List Message → Bool}

/-- A comparison that creates nothing agrees with itself. -/
theorem agrees_some (h : W.Fresh) (equal : Bool) :
    Agrees vs W (some ⟨W, [], equal⟩) (some ⟨W, [], equal⟩) := by
  rintro r ⟨⟩
  exact ⟨.refl h vs, fun _ => rfl⟩

/-- A comparison that goes on after another one, unless this one has settled it. -/
theorem Agrees.bind {shared own : Option Compared} (again : Compared → Bool)
    {next next' : World → Option Compared} (hW : W.Fresh) (h : Agrees vs W shared own)
    (hnext : ∀ V : World, V.Fresh → Agrees vs V (next V) (next' V)) :
    Agrees vs W
      (shared.bind fun x =>
        if again x then (next x.world).map fun y => { y with created := x.created ++ y.created }
        else some x)
      (own.bind fun x =>
        if again x then (next' x.world).map fun y => { y with created := x.created ++ y.created }
        else some x) := by
  intro r hr
  obtain ⟨x, hx, hr⟩ := Option.bind_eq_some_iff.mp hr
  obtain ⟨hgrown, hshared⟩ := h x hx
  by_cases hagain : again x = true
  · rw [if_pos hagain] at hr
    obtain ⟨y, hy, rfl⟩ := Option.map_eq_some_iff.mp hr
    obtain ⟨hgrown', hshared'⟩ := hnext x.world hgrown.fresh y hy
    refine ⟨hgrown.trans hgrown', fun hcreated => ?_⟩
    rw [hshared fun c hc => hcreated c (List.mem_append_left _ hc)]
    simp only [Option.bind_some, hagain, if_true]
    rw [hshared' fun c hc => hgrown.unshared hW (hcreated c (List.mem_append_right _ hc))]
    rfl
  · rw [if_neg hagain] at hr
    cases hr
    refine ⟨hgrown, fun hcreated => ?_⟩
    rw [hshared hcreated, Option.bind_some, if_neg hagain]

/-- A comparison that first creates the message of an unset field. -/
theorem Agrees.create {compare compare' : World → Option Compared} {i : Nat} (hW : W.Fresh)
    (hp : p.root ∈ vs) (hunset : (W.get (p.sub (.field i))).isPresent = false) (t : Nat)
    (h : ∀ V : World, V.Fresh → Agrees vs V (compare V) (compare' V)) :
    Agrees vs W
      ((compare (create S isAny .shared W p i t)).map fun x => { x with created := p :: x.created })
      ((compare' (create S isAny .own W p i t)).map fun x => { x with created := p :: x.created }) := by
  intro r hr
  obtain ⟨x, hx, rfl⟩ := Option.map_eq_some_iff.mp hr
  have hcreate : Grown vs W (Objects.create S isAny .own W p i t) := create_grown hW hunset t hp
  obtain ⟨hgrown, hshared⟩ := h _ hcreate.fresh x hx
  refine ⟨hcreate.trans hgrown, fun hcreated => ?_⟩
  rw [create_shared_eq_own (hcreated p List.mem_cons_self)]
  rw [hshared fun c hc => hcreate.unshared hW (hcreated c (List.mem_cons_of_mem p hc))]
  rfl

variable {compare compare' : World → Place → Place → Option Compared}

/-- Two message fields are compared alike if their messages are. -/
theorem comparePointers_agrees (hp : p.root ∈ vs) (hq : q.root ∈ vs)
    (h : ∀ x y (V : World), V.Fresh → Agrees vs V (compare V (p.sub x) (q.sub y))
      (compare' V (p.sub x) (q.sub y))) (i t : Nat) (hW : W.Fresh) :
    Agrees vs W (comparePointers S isAny .shared compare p q i t W)
      (comparePointers S isAny .own compare' p q i t W) := by
  cases hl : (W.get (p.sub (.field i))).isPresent <;>
    cases hr : (W.get (q.sub (.field i))).isPresent <;> simp only [comparePointers, hl, hr]
  · exact agrees_some hW true
  · exact .create hW hp hl t (h _ _)
  · exact .create hW hq hr t (h _ _)
  · have hagain (next : Compared → Option Compared) :
        (fun x : Compared => if x.equal then some x else next x) =
          fun x => if !x.equal then next x else some x := by
      funext x
      cases x.equal <;> rfl
    simp only [hagain]
    exact Agrees.bind (fun x => !x.equal) hW (h _ _ W hW) (h _ _)

/-- One check of a comparison agrees with that of the value model. -/
theorem runCheck_agrees (hp : p.root ∈ vs) (hq : q.root ∈ vs)
    (h : ∀ x y (V : World), V.Fresh → Agrees vs V (compare V (p.sub x) (q.sub y))
      (compare' V (p.sub x) (q.sub y))) (check : Check) (hW : W.Fresh) :
    Agrees vs W (runCheck S isAny .shared compare p q W check)
      (runCheck S isAny .own compare' p q W check) := by
  cases check with
  | values equal => exact agrees_some hW equal
  | pointers i t => exact comparePointers_agrees hp hq h i t hW
  | objects x y => exact h x y W hW

/-- The checks of a comparison, up to the first that fails, agree with those of the value model. -/
theorem runChecks_agrees (hp : p.root ∈ vs) (hq : q.root ∈ vs)
    (h : ∀ x y (V : World), V.Fresh → Agrees vs V (compare V (p.sub x) (q.sub y))
      (compare' V (p.sub x) (q.sub y))) (checks : List Check) (hW : W.Fresh) :
    Agrees vs W (runChecks S isAny .shared compare p q checks W)
      (runChecks S isAny .own compare' p q checks W) := by
  induction checks generalizing W with
  | nil => exact agrees_some hW true
  | cons check checks ih =>
    exact .bind Compared.equal hW (runCheck_agrees hp hq h check hW) fun V hV => ih hV

/-- A comparison creates messages in its operands and does nothing else. -/
theorem comparesEqual_agrees (fuel : Nat) (hp : p.root ∈ vs) (hq : q.root ∈ vs) (hW : W.Fresh) :
    Agrees vs W (comparesEqual S order customEqual isAny .shared fuel W p q)
      (comparesEqual S order customEqual isAny .own fuel W p q) := by
  induction fuel generalizing W p q with
  | zero => rintro r ⟨⟩
  | succ fuel ih =>
    simp only [comparesEqual]
    split
    · exact runChecks_agrees hp hq (fun x y V hV => ih (p := p.sub x) (q := q.sub y) hp hq hV) _ hW
    · rintro r ⟨⟩

end

end QtGrpc.Protobuf.Objects
