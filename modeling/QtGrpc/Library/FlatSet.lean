import Mathlib.Data.List.Basic
import Mathlib.Data.List.Nodup
import Mathlib.Data.List.Range

/-!
# Walks over a flat set that shrinks

A flat set keeps its elements in consecutive slots of some memory. A loop over it asks for the
first and the last position once; the code it runs at each position may remove elements of the
set. Slots outside the set still hold what they held. As long as the first element leaves by
moving the beginning, and any other one by moving the elements behind it down by one slot, the
loop meets every element that is still there.
-/

variable {A : Type}

/-- A set with its representation in memory. -/
structure FlatSet (A : Type) where
  Storage : Type
  empty : Storage
  elements : Storage → List A
  insert : A → Storage → Storage
  remove : A → Storage → Storage
  first : Storage → Nat
  last : Storage → Nat
  read : Storage → Nat → Option A

namespace FlatSet

/-- The elements lie in consecutive slots, and removal moves them as little as possible. -/
structure Lawful [DecidableEq A] (set : FlatSet A) : Prop where
  nodup : ∀ s, (set.elements s).Nodup
  elements_empty : set.elements set.empty = []
  mem_insert : ∀ s a b, b ∈ set.elements (set.insert a s) ↔ b = a ∨ b ∈ set.elements s
  elements_remove : ∀ s a, set.elements (set.remove a s) = (set.elements s).erase a
  last_eq : ∀ s, set.last s = set.first s + (set.elements s).length
  read_eq : ∀ s i, i < (set.elements s).length →
    set.read s (set.first s + i) = (set.elements s)[i]?
  first_remove_first : ∀ s a b rest, set.elements s = a :: b :: rest →
    set.first (set.remove a s) = set.first s + 1
  first_remove_later : ∀ s a b rest, set.elements s = b :: rest → a ≠ b →
    set.first (set.remove a s) = set.first s
  read_remove : ∀ s a p, set.read (set.remove a s) p = set.read s p ∨
    set.first s ≤ p ∧ p + 1 < set.last s ∧ set.read (set.remove a s) p = set.read s (p + 1)
  read_remove_first : ∀ s a rest p, set.elements s = a :: rest →
    set.read (set.remove a s) p = set.read s p

/-- Remove all elements of a kind. -/
def removeAll (set : FlatSet A) (kind : A → Bool) (s : set.Storage) : set.Storage :=
  (set.elements s).foldl (fun s a => if kind a then set.remove a s else s) s

section Walk

variable {set : FlatSet A} {s : set.Storage} {position last : Nat} {all : List A}

/-- A walk is under way from a position to the last one, over what was in the set when it began. -/
structure Walk (set : FlatSet A) (s : set.Storage) (position last : Nat) (all : List A) : Prop where
  le : position ≤ last
  within : set.elements s = [] ∨ position ≤ set.first s ∧ set.last s ≤ last
  reads : ∀ p, position ≤ p → p < last → ∃ a ∈ all, set.read s p = some a

variable [DecidableEq A]

/-- A walk begins with the elements of the set. -/
theorem Lawful.walk (h : set.Lawful) (s : set.Storage) :
    Walk set s (set.first s) (set.last s) (set.elements s) where
  le := by
    rw [h.last_eq]
    omega
  within := .inr ⟨le_rfl, le_rfl⟩
  reads p hfirst hlast := by
    rw [h.last_eq] at hlast
    obtain ⟨i, rfl⟩ := Nat.exists_eq_add_of_le hfirst
    have hi : i < (set.elements s).length := by omega
    exact ⟨_, List.getElem_mem hi, by rw [h.read_eq s i hi, List.getElem?_eq_getElem hi]⟩

/-- A removal is no obstacle to a walk. -/
theorem Walk.remove (h : set.Lawful) (hwalk : Walk set s position last all) (a : A) :
    Walk set (set.remove a s) position last all where
  le := hwalk.le
  within := by
    rcases hwalk.within with hempty | ⟨hposition, hlast⟩
    · exact .inl (by rw [h.elements_remove, hempty]; rfl)
    have hend := h.last_eq (set.remove a s)
    rw [h.elements_remove] at hend
    rw [h.last_eq] at hlast
    cases helements : set.elements s with
    | nil => exact .inl (by rw [h.elements_remove, helements]; rfl)
    | cons b rest =>
      rw [helements] at hend hlast
      by_cases hab : a = b
      · subst hab
        cases rest with
        | nil => exact .inl (by rw [h.elements_remove, helements]; simp)
        | cons c rest =>
          have hfirst := h.first_remove_first s a c rest helements
          simp only [List.erase_cons_head, List.length_cons] at hend hlast
          exact .inr ⟨by omega, by omega⟩
      · have hfirst := h.first_remove_later s a b rest helements hab
        have hlength : ((b :: rest).erase a).length ≤ (b :: rest).length :=
          List.length_erase_le
        exact .inr ⟨by omega, by omega⟩
  reads p hp hpast := by
    rcases h.read_remove s a p with hsame | ⟨hfirst, hmoved, hread⟩
    · rw [hsame]
      exact hwalk.reads p hp hpast
    · rw [hread]
      refine hwalk.reads (p + 1) (by omega) ?_
      rcases hwalk.within with hempty | ⟨-, hlast⟩
      · rw [h.last_eq, hempty, List.length_nil] at hmoved
        omega
      · omega

/-- The position of a walk holds what it held, also when that is removed. -/
theorem Walk.read_remove (h : set.Lawful) (hwalk : Walk set s position last all) {a : A}
    (hread : set.read s position = some a) : set.read (set.remove a s) position = some a := by
  rcases h.read_remove s a position with hsame | ⟨hfirst, hmoved, -⟩
  · rw [hsame, hread]
  rw [h.last_eq] at hmoved
  have hposition : position = set.first s := by
    rcases hwalk.within with hempty | ⟨hposition, -⟩
    · rw [hempty, List.length_nil] at hmoved
      omega
    · omega
  cases helements : set.elements s with
  | nil =>
    rw [helements, List.length_nil] at hmoved
    omega
  | cons b rest =>
    have hbegin := h.read_eq s 0 (by simp [helements])
    rw [Nat.add_zero, ← hposition, helements, List.getElem?_cons_zero, hread] at hbegin
    obtain rfl := Option.some.inj hbegin
    rw [h.read_remove_first s a rest position helements, hread]

/-- A position that no longer holds an element of the set can be left. -/
theorem Walk.advance (h : set.Lawful) (hwalk : Walk set s position last all)
    (hlast : position ≠ last)
    (hleft : ∀ a, set.read s position = some a → a ∉ set.elements s) :
    Walk set s (position + 1) last all where
  le := by
    have := hwalk.le
    omega
  within := by
    rcases hwalk.within with hempty | ⟨hposition, hend⟩
    · exact .inl hempty
    rcases Nat.eq_or_lt_of_le hposition with hfirst | hfirst
    · cases helements : set.elements s with
      | nil => exact .inl rfl
      | cons a rest =>
        have hread := h.read_eq s 0 (by simp [helements])
        rw [Nat.add_zero, ← hfirst, helements, List.getElem?_cons_zero] at hread
        exact absurd (by simp [helements]) (hleft a hread)
    · exact .inr ⟨hfirst, hend⟩
  reads p hp := hwalk.reads p (by omega)

/-- A walk that has come to its end leaves the set empty. -/
theorem Walk.done (h : set.Lawful) (hwalk : Walk set s last last all) : set.elements s = [] := by
  rcases hwalk.within with hempty | ⟨hfirst, hlast⟩
  · exact hempty
  · rw [h.last_eq] at hlast
    exact List.length_eq_zero_iff.mp (by omega)

/-- A loop over a list removes the elements of the kind that are in it. -/
theorem elements_foldl_remove (h : set.Lawful) (kind : A → Bool) (l : List A) (s : set.Storage) :
    set.elements (l.foldl (fun s a => if kind a then set.remove a s else s) s) =
      (set.elements s).filter fun a => !(kind a && l.contains a) := by
  induction l generalizing s with
  | nil => simp
  | cons b l ih =>
    rw [List.foldl_cons, ih]
    split
    · rename_i hkind
      rw [h.elements_remove, (h.nodup s).erase_eq_filter, List.filter_filter]
      refine List.filter_congr fun a ha => ?_
      by_cases hab : a = b
      · simp [hab, hkind]
      · simp [hab]
    · rename_i hkind
      refine List.filter_congr fun a ha => ?_
      by_cases hab : a = b
      · simp [hab, hkind]
      · simp [hab]

/-- What is left are the elements of the other kind. -/
theorem elements_removeAll (h : set.Lawful) (kind : A → Bool) (s : set.Storage) :
    set.elements (set.removeAll kind s) = (set.elements s).filter fun a => !kind a := by
  rw [removeAll, elements_foldl_remove h]
  refine List.filter_congr fun a ha => ?_
  simp [ha]

/-- A walk goes on behind the removal of several elements. -/
theorem Walk.removeAll (h : set.Lawful) (hwalk : Walk set s position last all) (kind : A → Bool) :
    Walk set (set.removeAll kind s) position last all := by
  unfold FlatSet.removeAll
  generalize set.elements s = l
  induction l generalizing s with
  | nil => exact hwalk
  | cons a l ih =>
    rw [List.foldl_cons]
    split
    · exact ih (hwalk.remove h a)
    · exact ih hwalk

/-- Behind the removal of the element at a position, the position still holds it. -/
theorem Walk.read_removeAll (h : set.Lawful) (hwalk : Walk set s position last all) {a : A}
    {kind : A → Bool} (hkind : ∀ b, kind b = true → b = a)
    (hread : set.read s position = some a) : set.read (set.removeAll kind s) position = some a := by
  unfold FlatSet.removeAll
  generalize set.elements s = l
  induction l generalizing s with
  | nil => exact hread
  | cons b l ih =>
    rw [List.foldl_cons]
    split
    · rename_i hb
      obtain rfl := hkind b hb
      exact ih (hwalk.remove h b) (hwalk.read_remove h hread)
    · exact ih hwalk hread

end Walk

end FlatSet

/-! ## An array -/

/-- The contents of some consecutive slots. -/
def slots (memory : Nat → A) (first size : Nat) : List A :=
  (List.range size).map fun i => memory (first + i)

/-- As many slots are read as there are elements. -/
@[simp] theorem length_slots (memory : Nat → A) (first size : Nat) :
    (slots memory first size).length = size := by
  simp [slots]

/-- An element lies in the slot of its position. -/
theorem getElem_slots (memory : Nat → A) (first size i : Nat)
    (h : i < (slots memory first size).length) :
    (slots memory first size)[i] = memory (first + i) := by
  simp [slots]

/-- Removal of the first slot. -/
theorem slots_tail (memory : Nat → A) (first size : Nat) :
    slots memory (first + 1) (size - 1) = (slots memory first size).eraseIdx 0 := by
  refine List.ext_getElem (by simp) fun i hi _ => ?_
  rw [List.getElem_eraseIdx, getElem_slots, dif_neg (by omega), getElem_slots]
  congr 1
  omega

/-- The slots behind the removed one move down. -/
def shift (memory : Nat → A) (first size i : Nat) (p : Nat) : A :=
  if first + i ≤ p ∧ p + 1 < first + size then memory (p + 1) else memory p

/-- Moving what is behind an element down by a slot removes it. -/
theorem slots_shift (memory : Nat → A) (first size i : Nat) (hi : i < size) :
    slots (shift memory first size i) first (size - 1) = (slots memory first size).eraseIdx i := by
  refine List.ext_getElem (by simp [List.length_eraseIdx, hi]) fun j hj _ => ?_
  rw [length_slots] at hj
  rw [List.getElem_eraseIdx, getElem_slots, shift]
  by_cases hbefore : j < i
  · rw [dif_pos hbefore, if_neg (by omega), getElem_slots]
  · rw [dif_neg hbefore, if_pos (by omega), getElem_slots]
    congr 1

/-- The memory of a copy with one more element at its end. -/
def extend (memory : Nat → A) (first size : Nat) (a : A) (p : Nat) : A :=
  if p = size then a else memory (first + p)

/-- An element is added behind the others. -/
theorem slots_extend (memory : Nat → A) (first size : Nat) (a : A) :
    slots (extend memory first size a) 0 (size + 1) = slots memory first size ++ [a] := by
  simp only [slots, List.range_succ, List.map_append, List.map_cons, List.map_nil]
  congr 1
  · refine List.map_congr_left fun i hi => ?_
    have hbefore := List.mem_range.mp hi
    rw [extend, if_neg (by omega), Nat.zero_add]
  · rw [extend, if_pos (Nat.zero_add size)]

/-- An array whose beginning can move. -/
structure Slots (A : Type) where
  memory : Nat → A
  first : Nat
  size : Nat
  nodup : (slots memory first size).Nodup

namespace Slots

/-- The set that the array holds. -/
def elements (s : Slots A) : List A := slots s.memory s.first s.size

/-- The size is the number of the elements. -/
theorem length_elements (s : Slots A) : s.elements.length = s.size := length_slots _ _ _

/-- A slot of the set holds an element of it. -/
theorem memory_eq (s : Slots A) (i : Nat) (h : i < s.elements.length) :
    s.memory (s.first + i) = s.elements[i] := (getElem_slots s.memory s.first s.size i h).symm

variable [DecidableEq A]

/-- A new element comes last, in a copy of the array. -/
def insert (a : A) (s : Slots A) : Slots A :=
  if h : a ∈ s.elements then s
  else
    { memory := extend s.memory s.first s.size a
      first := 0
      size := s.size + 1
      nodup := by
        rw [slots_extend]
        exact List.nodup_append.mpr ⟨s.nodup, List.nodup_singleton a, fun b hb c hc hbc => by
          rw [List.mem_singleton.mp hc] at hbc
          exact h (hbc ▸ hb)⟩ }

/-- A new element comes last. -/
theorem elements_insert {a : A} {s : Slots A} (h : a ∉ s.elements) :
    (s.insert a).elements = s.elements ++ [a] := by
  rw [insert, dif_neg h]
  exact slots_extend s.memory s.first s.size a

/-- The first element leaves by moving the beginning, another one by moving those behind it. -/
def remove (a : A) (s : Slots A) : Slots A :=
  if h : s.elements.idxOf a < s.size then
    if s.elements.idxOf a = 0 ∧ s.size ≠ 1 then
      { memory := s.memory
        first := s.first + 1
        size := s.size - 1
        nodup := by
          rw [slots_tail]
          exact s.nodup.sublist (List.eraseIdx_sublist _ _) }
    else
      { memory := shift s.memory s.first s.size (s.elements.idxOf a)
        first := s.first
        size := s.size - 1
        nodup := by
          rw [slots_shift _ _ _ _ h]
          exact s.nodup.sublist (List.eraseIdx_sublist _ _) }
  else s

/-- An element is taken out, and the others keep their order. -/
theorem elements_remove (a : A) (s : Slots A) : (s.remove a).elements = s.elements.erase a := by
  rw [List.erase_eq_eraseIdx_of_idxOf rfl]
  unfold remove
  split
  · rename_i h
    split
    · rename_i hfirst
      rw [hfirst.1]
      exact slots_tail s.memory s.first s.size
    · exact slots_shift s.memory s.first s.size _ h
  · rename_i h
    refine (List.eraseIdx_of_length_le ?_).symm
    simpa [elements] using h

/-- The elements behind an insertion. -/
theorem mem_insert (s : Slots A) (a b : A) : b ∈ (s.insert a).elements ↔ b = a ∨ b ∈ s.elements := by
  by_cases h : a ∈ s.elements
  · rw [insert, dif_pos h]
    exact ⟨.inr, fun hb => hb.elim (fun hb => hb ▸ h) id⟩
  · rw [elements_insert h, List.mem_append, List.mem_singleton, or_comm]

/-- The first element leaves by moving the beginning. -/
theorem first_remove_first {s : Slots A} {a b : A} {rest : List A}
    (h : s.elements = a :: b :: rest) : (s.remove a).first = s.first + 1 := by
  have hsize : s.size = rest.length + 2 := by
    rw [← s.length_elements, h]
    rfl
  have hidx : s.elements.idxOf a = 0 := by simp [h]
  rw [remove, dif_pos (by omega), if_pos ⟨hidx, by omega⟩]

/-- Any other one leaves the beginning where it is. -/
theorem first_remove_later {s : Slots A} {a b : A} {rest : List A} (h : s.elements = b :: rest)
    (hab : a ≠ b) : (s.remove a).first = s.first := by
  have hidx : s.elements.idxOf a ≠ 0 := by
    rw [h, List.idxOf_cons_ne rest (Ne.symm hab)]
    exact Nat.succ_ne_zero _
  unfold remove
  split
  · rw [if_neg fun hfirst => hidx hfirst.1]
  · rfl

/-- A slot keeps what it holds, or gets what the next one held. -/
theorem memory_remove (s : Slots A) (a : A) (p : Nat) : (s.remove a).memory p = s.memory p ∨
    s.first ≤ p ∧ p + 1 < s.first + s.size ∧ (s.remove a).memory p = s.memory (p + 1) := by
  unfold remove
  split
  · split
    · exact .inl rfl
    · dsimp only [shift]
      split
      · rename_i hmoved
        exact .inr ⟨by omega, hmoved.2, rfl⟩
      · exact .inl rfl
  · exact .inl rfl

/-- No slot changes where the first element leaves. -/
theorem memory_remove_first {s : Slots A} {a : A} {rest : List A} (h : s.elements = a :: rest)
    (p : Nat) : (s.remove a).memory p = s.memory p := by
  have hidx : s.elements.idxOf a = 0 := by simp [h]
  unfold remove
  split
  · split
    · rfl
    · rename_i hlast
      have hsize : s.size = 1 := by
        by_contra hne
        exact hlast ⟨hidx, hne⟩
      dsimp only [shift]
      rw [if_neg (by omega)]
  · rfl

/-- An array as a flat set; `default` fills the memory that was never used. -/
def flatSet (A : Type) [DecidableEq A] [Inhabited A] : FlatSet A where
  Storage := Slots A
  empty := { memory := fun _ => default, first := 0, size := 0, nodup := by simp [slots] }
  elements := elements
  insert := insert
  remove := remove
  first := first
  last s := s.first + s.size
  read s p := some (s.memory p)

/-- Consecutive slots are a flat set. -/
theorem lawful [Inhabited A] : (flatSet A).Lawful where
  nodup := nodup
  elements_empty := rfl
  mem_insert := mem_insert
  elements_remove s a := elements_remove a s
  last_eq s := congrArg (s.first + ·) s.length_elements.symm
  read_eq s i hi := (congrArg some (memory_eq s i hi)).trans (List.getElem?_eq_getElem hi).symm
  first_remove_first _ _ _ _ helements := first_remove_first helements
  first_remove_later _ _ _ _ helements hab := first_remove_later helements hab
  read_remove s a p := (s.memory_remove a p).imp (congrArg some)
    fun h => ⟨h.1, h.2.1, congrArg some h.2.2⟩
  read_remove_first _ _ _ p helements := congrArg some (memory_remove_first helements p)

end Slots
