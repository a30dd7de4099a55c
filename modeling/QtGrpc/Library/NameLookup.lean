import Mathlib.Data.List.Basic

/-!
# Lookup of qualified names

Namespaces are known by the names that lead to them from the global one. The first component of a
qualified name is searched in the namespaces around the place where the name is used, from the
innermost outwards; the other components are qualified by what it is found to be.
-/

namespace NameLookup

variable {α : Type} (declares : List α → α → Bool) (place : List α)

/-- The nearest of the namespaces around a place that declares a name, up to some depth. -/
def nearest (name : α) : (depth : Nat) → Option (List α)
  | 0 => if declares [] name then some [] else none
  | depth + 1 =>
    if declares (place.take (depth + 1)) name then some (place.take (depth + 1))
    else nearest name depth

/-- What a qualified name leads to. -/
def lookup : (components : List α) → Option (List α)
  | [] => none
  | first :: rest => (nearest declares place first place.length).map (· ++ first :: rest)

/-- No namespace around the place deeper than this one declares the name. -/
def Unhidden (depth : Nat) (name : α) : Prop :=
  ∀ inner, depth < inner → inner ≤ place.length → declares (place.take inner) name = false

variable {declares place}

instance (depth : Nat) (name : α) : Decidable (Unhidden declares place depth name) :=
  decidable_of_iff (∀ inner < place.length + 1, depth < inner →
    declares (place.take inner) name = false)
    ⟨fun h inner hlt hle => h inner (Nat.lt_succ_of_le hle) hlt,
      fun h inner hle hlt => h inner hlt (Nat.le_of_lt_succ hle)⟩

/-- The search ends at the first of the namespaces, from the innermost outwards, with the name. -/
theorem nearest_eq_some_iff {name : α} {depth : Nat} {found : List α} :
    nearest declares place name depth = some found ↔
      ∃ outer ≤ depth, found = place.take outer ∧ declares (place.take outer) name = true ∧
        ∀ inner, outer < inner → inner ≤ depth → declares (place.take inner) name = false := by
  induction depth with
  | zero =>
    rw [nearest]
    constructor
    · intro h
      split at h
      · rename_i hdeclared
        exact ⟨0, Nat.le_refl 0, (Option.some.inj h).symm, hdeclared, by omega⟩
      · cases h
    · rintro ⟨outer, houter, rfl, hdeclared, -⟩
      obtain rfl := Nat.le_zero.mp houter
      exact if_pos hdeclared
  | succ depth ih =>
    rw [nearest]
    by_cases hhere : declares (place.take (depth + 1)) name = true
    · rw [if_pos hhere]
      constructor
      · intro h
        exact ⟨depth + 1, Nat.le_refl _, (Option.some.inj h).symm, hhere, by omega⟩
      · rintro ⟨outer, houter, rfl, -, hinner⟩
        by_cases heq : outer = depth + 1
        · rw [heq]
        · rw [hinner (depth + 1) (by omega) (Nat.le_refl _)] at hhere
          cases hhere
    · rw [if_neg hhere, ih]
      rw [Bool.not_eq_true] at hhere
      constructor
      · rintro ⟨outer, houter, hfound, hdeclared, hinner⟩
        refine ⟨outer, by omega, hfound, hdeclared, ?_⟩
        intro inner hlt hle
        by_cases heq : inner = depth + 1
        · rw [heq, hhere]
        · exact hinner inner hlt (by omega)
      · rintro ⟨outer, houter, hfound, hdeclared, hinner⟩
        by_cases heq : outer = depth + 1
        · rw [heq, hhere] at hdeclared
          cases hdeclared
        · exact ⟨outer, by omega, hfound, hdeclared, fun inner hlt hle =>
            hinner inner hlt (by omega)⟩

/-- A name leads from the first namespace around the place that declares its first component. -/
theorem lookup_eq_some_iff {first : α} {rest found : List α} :
    lookup declares place (first :: rest) = some found ↔
      ∃ outer ≤ place.length, found = place.take outer ++ first :: rest ∧
        declares (place.take outer) first = true ∧ Unhidden declares place outer first := by
  rw [lookup, Option.map_eq_some_iff]
  constructor
  · rintro ⟨namespaces, hnearest, rfl⟩
    obtain ⟨outer, houter, rfl, hdeclared, hinner⟩ := nearest_eq_some_iff.mp hnearest
    exact ⟨outer, houter, rfl, hdeclared, hinner⟩
  · rintro ⟨outer, houter, rfl, hdeclared, hinner⟩
    exact ⟨_, nearest_eq_some_iff.mpr ⟨outer, houter, rfl, hdeclared, hinner⟩, rfl⟩

/-- Nothing is nearer than the innermost namespace. -/
theorem unhidden_length (name : α) : Unhidden declares place place.length name := by
  intro inner hlt hle
  omega

end NameLookup
