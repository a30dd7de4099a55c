import Mathlib.Data.List.AList

/-!
# Hashes with one and with many values for a key

A hash with one value for a key is an association list without duplicate keys, a multi-hash a list
of pairs in which the newest pair of each key comes first. The order of the keys does not matter.
-/

variable {α β : Type*} [DecidableEq α] [DecidableEq β]

/-- A hash with one value for a key. -/
abbrev Hash (α β : Type*) := AList fun _ : α => β

/-- The pairs of a multi-hash in the order of iteration, those of one key from the newest on. -/
abbrev MultiHash (α β : Type*) := List (α × β)

namespace Hash

/-- The comparison of two hashes. -/
def Equal (h h' : Hash α β) : Prop := h.entries.Perm h'.entries

instance (h h' : Hash α β) : Decidable (h.Equal h') :=
  inferInstanceAs (Decidable (List.Perm _ _))

omit [DecidableEq β] in
/-- Hashes are equal if every key has the same value. -/
theorem equal_iff_lookup (h h' : Hash α β) : h.Equal h' ↔ ∀ k, h.lookup k = h'.lookup k := by
  constructor
  · intro heq k
    exact AList.perm_lookup heq
  · intro heq
    refine List.lookup_ext h.nodupKeys h'.nodupKeys fun k v => ?_
    have hk : h.entries.dlookup k = h'.entries.dlookup k := heq k
    rw [hk]

end Hash

namespace MultiHash

/-- The values of a key, the newest first. -/
def equalRange (m : MultiHash α β) (k : α) : List β :=
  (m.filter fun pair => pair.1 = k).map Prod.snd

/-- A new pair comes before the others of its key. -/
def emplace (m : MultiHash α β) (k : α) (v : β) : MultiHash α β := (k, v) :: m

/-- The comparison of two multi-hashes does not look at the order of values. -/
def Equal (m m' : MultiHash α β) : Prop := m.Perm m'

instance (m m' : MultiHash α β) : Decidable (m.Equal m') :=
  inferInstanceAs (Decidable (List.Perm _ _))

/-- Each key of a hash with its value. -/
def ofHash (h : Hash α β) : MultiHash α β := h.entries.map fun entry => (entry.1, entry.2)

/-- The pairs of a list, inserted one after the other. -/
def ofList (pairs : List (α × β)) : MultiHash α β := pairs.foldl (fun m pair => m.emplace pair.1 pair.2) []

/-- No key has more than one value. -/
def OneValuePerKey (m : MultiHash α β) : Prop := (m.map Prod.fst).Nodup

instance (m : MultiHash α β) : Decidable m.OneValuePerKey :=
  inferInstanceAs (Decidable (List.Nodup _))

/-- A hash that takes a pair in unless it has its key. -/
def tryEmplace (out : Hash α β) (pair : α × β) : Hash α β :=
  if pair.1 ∈ out then out else out.insert pair.1 pair.2

/-- The first value of each key. -/
def toHash (m : MultiHash α β) : Hash α β := m.foldl tryEmplace ∅

omit [DecidableEq β] in
/-- An entry is inserted only where its key has none. -/
theorem lookup_tryEmplace (out : Hash α β) (pair : α × β) (k : α) :
    (tryEmplace out pair).lookup k = (out.lookup k).or (if pair.1 = k then some pair.2 else none) := by
  unfold tryEmplace
  by_cases hmem : pair.1 ∈ out
  · rw [if_pos hmem]
    by_cases hk : pair.1 = k
    · subst hk
      obtain ⟨v, hv⟩ := Option.isSome_iff_exists.mp (AList.lookup_isSome.mpr hmem)
      simp [hv]
    · simp [hk]
  · rw [if_neg hmem]
    by_cases hk : pair.1 = k
    · subst hk
      rw [AList.lookup_insert, AList.lookup_eq_none.mpr hmem]
      simp
    · rw [AList.lookup_insert_ne (Ne.symm hk)]
      simp [hk]

omit [DecidableEq β] in
/-- The hash has the newest value of each key. -/
theorem lookup_toHash (m : MultiHash α β) (k : α) :
    m.toHash.lookup k = (m.equalRange k).head? := by
  have hfold (out : Hash α β) :
      (m.foldl tryEmplace out).lookup k = (out.lookup k).or (m.equalRange k).head? := by
    induction m generalizing out with
    | nil => simp [equalRange]
    | cons pair m ih =>
      rw [List.foldl_cons, ih, lookup_tryEmplace, Option.or_assoc]
      congr 1
      by_cases hk : pair.1 = k
      · simp [equalRange, hk]
      · simp [equalRange, hk]
  simpa [toHash] using hfold ∅

omit [DecidableEq β] in
/-- A new value comes first among those of its key. -/
theorem equalRange_emplace (m : MultiHash α β) (k k' : α) (v : β) :
    (m.emplace k v).equalRange k' = (if k = k' then [v] else []) ++ m.equalRange k' := by
  by_cases hk : k = k'
  · simp [emplace, equalRange, hk]
  · simp [emplace, equalRange, hk]

omit [DecidableEq β] in
omit [DecidableEq β] in
/-- If keys do not repeat, the newest value of a key is the only one. -/
theorem head?_equalRange_iff {m : MultiHash α β} (h : m.OneValuePerKey) (k : α) (v : β) :
    (m.equalRange k).head? = some v ↔ (k, v) ∈ m := by
  induction m with
  | nil => simp [equalRange]
  | cons pair m ih =>
    obtain ⟨k', v'⟩ := pair
    rw [OneValuePerKey, List.map_cons, List.nodup_cons] at h
    have hrange : equalRange ((k', v') :: m) k = (if k' = k then [v'] else []) ++ equalRange m k :=
      equalRange_emplace m k' k v'
    rw [hrange]
    by_cases hk : k' = k
    · subst hk
      have hnone : (k', v) ∉ m := fun hmem => h.1 (List.mem_map.mpr ⟨_, hmem, rfl⟩)
      simp [hnone, eq_comm]
    · simp [hk, Ne.symm hk, ih h.2]

omit [DecidableEq β] in
/-- A multi-hash made of a hash has its entries. -/
theorem mem_ofHash (h : Hash α β) (k : α) (v : β) : (k, v) ∈ ofHash h ↔ h.lookup k = some v := by
  have hmem : (k, v) ∈ ofHash h ↔ (⟨k, v⟩ : Sigma fun _ : α => β) ∈ h.entries := by
    simp [ofHash]
  rw [hmem]
  exact AList.mem_lookup_iff.symm

omit [DecidableEq α] [DecidableEq β] in
/-- And one value for each key. -/
theorem oneValuePerKey_ofHash (h : Hash α β) : (ofHash h).OneValuePerKey := by
  have hkeys : (ofHash h).map Prod.fst = h.keys := by
    simp [ofHash, AList.keys, List.keys, Function.comp_def]
  rw [OneValuePerKey, hkeys]
  exact h.keys_nodup

omit [DecidableEq β] in
/-- The hash made of a hash is that hash. -/
theorem toHash_ofHash (h : Hash α β) : (ofHash h).toHash.Equal h := by
  rw [Hash.equal_iff_lookup]
  intro k
  rw [lookup_toHash]
  ext v
  rw [head?_equalRange_iff (oneValuePerKey_ofHash h), mem_ofHash]

omit [DecidableEq β] in
/-- A multi-hash is that of a hash if it has no other newest values, and no older ones. -/
theorem equal_ofHash_iff (m : MultiHash α β) (h : Hash α β) :
    m.Equal (ofHash h) ↔ m.toHash.Equal h ∧ m.OneValuePerKey := by
  constructor
  · intro hperm
    have hone : m.OneValuePerKey := (hperm.map Prod.fst).nodup_iff.mpr (oneValuePerKey_ofHash h)
    refine ⟨(Hash.equal_iff_lookup _ _).mpr fun k => ?_, hone⟩
    rw [lookup_toHash]
    ext v
    rw [head?_equalRange_iff hone, hperm.mem_iff, mem_ofHash]
  · rintro ⟨hlookup, hone⟩
    rw [Hash.equal_iff_lookup] at hlookup
    refine (List.perm_ext_iff_of_nodup hone.of_map (oneValuePerKey_ofHash h).of_map).mpr ?_
    rintro ⟨k, v⟩
    rw [← head?_equalRange_iff hone, ← lookup_toHash, hlookup, mem_ofHash]

end MultiHash
