import QtGrpc.Library.Transition

/-!
# Two runs side by side

Two runs of one system that take the same inputs, except for inputs of a kind that either run
may take alone. Laid side by side they are one run of a system of pairs, so that a relation
between the two states is an invariant of that system.
-/

namespace Transition

variable {σ ι : Type*} (step : σ → ι → Option σ)

/-- An input of one of two runs, or of both. -/
inductive Paired (ι : Type*) where
  | first (i : ι)
  | second (i : ι)
  | both (i : ι)

namespace Paired

/-- The inputs of the first run. -/
def firsts (pairs : List (Paired ι)) : List ι :=
  pairs.filterMap fun
    | .first i | .both i => some i
    | .second _ => none

/-- The inputs of the second run. -/
def seconds (pairs : List (Paired ι)) : List ι :=
  pairs.filterMap fun
    | .second i | .both i => some i
    | .first _ => none

/-- Whether a run may take the input alone only if it is of the given kind. -/
def Admitted (alone : ι → Bool) : Paired ι → Prop
  | .first i | .second i => alone i = true
  | .both _ => True

end Paired

/-- The system of pairs. -/
def pairStep (alone : ι → Bool) (s : σ × σ) : Paired ι → Option (σ × σ)
  | .first i => if alone i then (step s.1 i).map fun next => (next, s.2) else none
  | .second i => if alone i then (step s.2 i).map fun next => (s.1, next) else none
  | .both i => (step s.1 i).bind fun first => (step s.2 i).map fun second => (first, second)

/-- A run of pairs is two runs. -/
theorem run_pairStep (alone : ι → Bool) (s final : σ × σ) (pairs : List (Paired ι)) :
    run (pairStep step alone) s pairs = some final ↔
      (∀ pair ∈ pairs, Paired.Admitted alone pair) ∧
        run step s.1 (Paired.firsts pairs) = some final.1 ∧
        run step s.2 (Paired.seconds pairs) = some final.2 := by
  induction pairs generalizing s with
  | nil => simp [run, Paired.firsts, Paired.seconds, Prod.ext_iff]
  | cons pair pairs ih =>
    rw [List.forall_mem_cons]
    cases pair with
    | first i =>
      rw [run_cons, pairStep, show Paired.firsts (.first i :: pairs) = i :: Paired.firsts pairs from rfl,
        show Paired.seconds (.first i :: pairs) = Paired.seconds pairs from rfl, run_cons]
      by_cases hi : alone i = true
      · cases step s.1 i with
        | none => simp
        | some next => simpa [hi, Paired.Admitted] using ih (next, s.2)
      · simp [hi, Paired.Admitted]
    | second i =>
      rw [run_cons, pairStep, show Paired.firsts (.second i :: pairs) = Paired.firsts pairs from rfl,
        show Paired.seconds (.second i :: pairs) = i :: Paired.seconds pairs from rfl, run_cons]
      by_cases hi : alone i = true
      · cases step s.2 i with
        | none => simp
        | some next => simpa [hi, Paired.Admitted] using ih (s.1, next)
      · simp [hi, Paired.Admitted]
    | both i =>
      rw [run_cons, pairStep, show Paired.firsts (.both i :: pairs) = i :: Paired.firsts pairs from rfl,
        show Paired.seconds (.both i :: pairs) = i :: Paired.seconds pairs from rfl, run_cons, run_cons]
      cases step s.1 i with
      | none => simp
      | some first =>
        cases step s.2 i with
        | none => simp
        | some second => simpa [Paired.Admitted] using ih (first, second)

/-- Two lists of inputs that agree but for inputs of a kind can be laid side by side. -/
theorem exists_paired (alone : ι → Bool) (first second : List ι)
    (h : first.filter (fun i => !alone i) = second.filter fun i => !alone i) :
    ∃ pairs, Paired.firsts pairs = first ∧ Paired.seconds pairs = second ∧
      ∀ pair ∈ pairs, Paired.Admitted alone pair := by
  induction first generalizing second with
  | nil =>
    have hsecond : ∀ i ∈ second, alone i = true := by simpa using h.symm
    refine ⟨second.map .second, ?_, ?_, ?_⟩
    · simp [Paired.firsts, List.filterMap_map]
    · simp [Paired.seconds, List.filterMap_map]
    · simpa [Paired.Admitted] using hsecond
  | cons i first ih =>
    by_cases hi : alone i = true
    · rw [List.filter_cons_of_neg (by simpa using hi)] at h
      obtain ⟨pairs, hfirst, hsecond, hadmitted⟩ := ih second h
      refine ⟨.first i :: pairs, ?_, hsecond, ?_⟩
      · rw [← hfirst]
        rfl
      · simpa [Paired.Admitted, hi] using hadmitted
    · rw [List.filter_cons_of_pos (by simpa using hi)] at h
      obtain ⟨before, after, rfl, hbefore, -, hafter⟩ := List.filter_eq_cons_iff.mp h.symm
      obtain ⟨pairs, hfirst, hsecond, hadmitted⟩ := ih after hafter.symm
      refine ⟨before.map .second ++ .both i :: pairs, ?_, ?_, ?_⟩
      · rw [← hfirst]
        simp [Paired.firsts, List.filterMap_map]
      · rw [← hsecond]
        simp [Paired.seconds, List.filterMap_map]
      · intro pair hpair
        rcases List.mem_append.mp hpair with hpair | hpair
        · obtain ⟨j, hj, rfl⟩ := List.mem_map.mp hpair
          simpa [Paired.Admitted] using hbefore j hj
        · rcases List.mem_cons.mp hpair with rfl | hpair
          · trivial
          · exact hadmitted pair hpair

end Transition
