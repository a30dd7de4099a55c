import Mathlib.Data.List.Nodup
import Mathlib.Data.List.Perm.Basic

/-!
# Values grouped by their keys

Values that arrive one after the other are put into one group for each key. Whatever the order of
the groups, each of them has the values of its key in the order of their arrival.
-/

namespace Grouping

variable {κ α : Type*} [DecidableEq κ]

/-- A value goes behind the others of its key. -/
def add (k : κ) (v : α) : List (κ × List α) → List (κ × List α)
  | [] => [(k, [v])]
  | (k', vs) :: groups => if k' = k then (k', vs ++ [v]) :: groups else (k', vs) :: add k v groups

/-- The values that arrived for a key. -/
def valuesOf (l : List (κ × α)) (k : κ) : List α := (l.filter fun e => e.1 = k).map Prod.snd

/-- No key has a value where there is none. -/
@[simp] theorem valuesOf_nil (k : κ) : valuesOf ([] : List (κ × α)) k = [] := rfl

/-- A value is added behind the others of its key. -/
theorem valuesOf_concat (l : List (κ × α)) (k k' : κ) (v : α) :
    valuesOf (l ++ [(k, v)]) k' = if k = k' then valuesOf l k' ++ [v] else valuesOf l k' := by
  unfold valuesOf
  rw [List.filter_append]
  by_cases h : k = k' <;> simp [h]

/-- There are groups for the keys that arrived, each with the values of its key. -/
structure Groups (l : List (κ × α)) (groups : List (κ × List α)) : Prop where
  nodup : (groups.map Prod.fst).Nodup
  mem_iff : ∀ k vs, (k, vs) ∈ groups ↔ vs ≠ [] ∧ vs = valuesOf l k

/-- Nothing is grouped into no groups. -/
theorem Groups.nil : Groups ([] : List (κ × α)) [] :=
  ⟨List.nodup_nil, by simp⟩

/-- The keys of the groups are those before and the new one. -/
theorem mem_keys_add {k k' : κ} {v : α} {groups : List (κ × List α)}
    (h : k' ∈ (add k v groups).map Prod.fst) : k' = k ∨ k' ∈ groups.map Prod.fst := by
  induction groups with
  | nil => exact .inl (by simpa [add] using h)
  | cons g groups ih =>
    obtain ⟨k'', vs⟩ := g
    rw [add] at h
    split at h
    · exact .inr (by simpa using h)
    · rcases List.mem_cons.mp h with rfl | h
      · exact .inr List.mem_cons_self
      · exact (ih h).imp_right (List.mem_cons_of_mem _)

/-- Every key has one group. -/
theorem nodup_add {k : κ} {v : α} {groups : List (κ × List α)}
    (h : (groups.map Prod.fst).Nodup) : ((add k v groups).map Prod.fst).Nodup := by
  induction groups with
  | nil => simp [add]
  | cons g groups ih =>
    obtain ⟨k', vs⟩ := g
    obtain ⟨hnotMem, hrest⟩ := List.nodup_cons.mp h
    rw [add]
    split
    · exact h
    · rename_i hne
      refine List.nodup_cons.mpr ⟨fun hmem => ?_, ih hrest⟩
      exact (mem_keys_add hmem).elim hne hnotMem

/-- Only the group of the key changes. -/
theorem mem_add {k k' : κ} {v : α} {vs : List α} {groups : List (κ × List α)}
    (h : (groups.map Prod.fst).Nodup) :
    (k', vs) ∈ add k v groups ↔
      if k' = k then (∃ ws, (k, ws) ∈ groups ∧ vs = ws ++ [v]) ∨
        k ∉ groups.map Prod.fst ∧ vs = [v]
      else (k', vs) ∈ groups := by
  induction groups with
  | nil =>
    rw [add]
    split <;> simp_all
  | cons g groups ih =>
    obtain ⟨k'', us⟩ := g
    obtain ⟨hnotMem, hrest⟩ := List.nodup_cons.mp h
    have hother (ws : List α) (hws : (k'', ws) ∈ groups) : False :=
      hnotMem (List.mem_map.mpr ⟨_, hws, rfl⟩)
    rw [add]
    by_cases hk : k'' = k
    · subst hk
      rw [if_pos rfl, List.mem_cons]
      split
      · rename_i heq
        subst heq
        constructor
        · rintro (heq | hmem)
          · exact .inl ⟨us, List.mem_cons_self, (Prod.mk.inj heq).2⟩
          · exact (hother vs hmem).elim
        · rintro (⟨ws, hws, rfl⟩ | ⟨hkey, -⟩)
          · rcases List.mem_cons.mp hws with heq | hmem
            · exact .inl (by rw [(Prod.mk.inj heq).2])
            · exact (hother ws hmem).elim
          · exact (hkey List.mem_cons_self).elim
      · rename_i hne
        simp [hne]
    · rw [if_neg hk, List.mem_cons, ih hrest]
      split
      · rename_i heq
        subst heq
        simp [Ne.symm hk]
      · rw [List.mem_cons]

/-- A value that arrives is the last one of its group. -/
theorem Groups.add {l : List (κ × α)} {groups : List (κ × List α)} (h : Groups l groups) (k : κ)
    (v : α) : Groups (l ++ [(k, v)]) (Grouping.add k v groups) := by
  refine ⟨nodup_add h.nodup, fun k' vs => ?_⟩
  rw [mem_add h.nodup, valuesOf_concat]
  by_cases hk : k' = k
  · subst hk
    rw [if_pos rfl, if_pos rfl]
    constructor
    · rintro (⟨ws, hws, rfl⟩ | ⟨hkey, rfl⟩)
      · rw [← ((h.mem_iff _ _).mp hws).2]
        simp
      · have hnone : valuesOf l k' = [] := by
          by_contra hne
          exact hkey (List.mem_map_of_mem ((h.mem_iff k' _).mpr ⟨hne, rfl⟩))
        simp [hnone]
    · rintro ⟨-, rfl⟩
      by_cases hnone : valuesOf l k' = []
      · refine .inr ⟨fun hmem => ?_, by simp [hnone]⟩
        obtain ⟨⟨_, ws⟩, hws, rfl⟩ := List.mem_map.mp hmem
        exact ((h.mem_iff _ _).mp hws).1 (((h.mem_iff _ _).mp hws).2.trans hnone)
      · exact .inl ⟨_, (h.mem_iff k' _).mpr ⟨hnone, rfl⟩, rfl⟩
  · rw [if_neg hk, if_neg (Ne.symm hk), h.mem_iff]

/-- The groups are determined by their order. -/
theorem Groups.eq_map {l : List (κ × α)} {groups : List (κ × List α)} (h : Groups l groups) :
    groups = (groups.map Prod.fst).map fun k => (k, valuesOf l k) := by
  rw [List.map_map]
  refine (List.map_id groups).symm.trans (List.map_congr_left fun g hg => ?_)
  exact Prod.ext rfl ((h.mem_iff g.1 g.2).mp hg).2

/-- The groups have the keys of the values. -/
theorem Groups.mem_keys {l : List (κ × α)} {groups : List (κ × List α)} (h : Groups l groups)
    (k : κ) : k ∈ groups.map Prod.fst ↔ k ∈ l.map Prod.fst := by
  have hvalues : valuesOf l k ≠ [] ↔ k ∈ l.map Prod.fst := by
    simp [valuesOf]
  rw [← hvalues]
  constructor
  · intro hmem
    obtain ⟨⟨_, vs⟩, hvs, rfl⟩ := List.mem_map.mp hmem
    have hgroup := (h.mem_iff _ _).mp hvs
    exact hgroup.2 ▸ hgroup.1
  · intro hne
    exact List.mem_map_of_mem ((h.mem_iff k _).mpr ⟨hne, rfl⟩)

/-- What is found for a key. -/
theorem Groups.lookup {l : List (κ × α)} {groups : List (κ × List α)} (h : Groups l groups) (k : κ) :
    (groups.lookup k).getD [] = valuesOf l k := by
  cases hlookup : groups.lookup k with
  | none =>
    by_contra hne
    have hmem := (h.mem_iff k _).mpr ⟨fun heq => hne heq.symm, rfl⟩
    simpa using List.lookup_eq_none_iff.mp hlookup _ hmem
  | some vs =>
    obtain ⟨l₁, l₂, heq, -⟩ := List.lookup_eq_some_iff.mp hlookup
    have hmem : (k, vs) ∈ groups := by simp [heq]
    exact ((h.mem_iff k vs).mp hmem).2

/-- The order of the groups does not matter. -/
theorem Groups.perm {l : List (κ × α)} {groups groups' : List (κ × List α)} (h : Groups l groups)
    (hperm : groups'.Perm groups) : Groups l groups' :=
  ⟨(hperm.map Prod.fst).nodup_iff.mpr h.nodup, fun k vs => hperm.mem_iff.trans (h.mem_iff k vs)⟩

end Grouping
