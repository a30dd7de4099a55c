import Mathlib.Data.List.Basic

/-!
# Runs of a deterministic partial transition function

A step consumes one input and is undefined where the system cannot take that input. Facts
about every state reached follow from facts about one step, either unconditionally or along
those runs whose steps all meet a condition on the state before them.
-/

namespace Transition

variable {σ ι : Type*} (step : σ → ι → Option σ)

/-- The state after a sequence of inputs, if every one of them could be taken. -/
def run (s : σ) : List ι → Option σ
  | [] => some s
  | i :: inputs => (step s i).bind fun next => run next inputs

/-- Every step of a run meets a condition on its input and the state before it. -/
def Along (condition : σ → ι → Prop) (s : σ) : List ι → Prop
  | [] => True
  | i :: inputs => condition s i ∧ ∀ next, step s i = some next → Along condition next inputs

theorem run_cons (s : σ) (i : ι) (inputs : List ι) :
    run step s (i :: inputs) = (step s i).bind fun next => run step next inputs := rfl

/-- Whether a run meets a decidable condition is decided by running it. -/
instance decidableAlong (condition : σ → ι → Prop) [∀ s i, Decidable (condition s i)] (s : σ) :
    ∀ inputs, Decidable (Along step condition s inputs)
  | [] => inferInstanceAs (Decidable True)
  | i :: inputs =>
    match h : step s i with
    | none => decidable_of_iff (condition s i) (by simp [Along, h])
    | some next =>
      have := decidableAlong condition next inputs
      decidable_of_iff (condition s i ∧ Along step condition next inputs) (by simp [Along, h])

/-- Running a concatenation is running its parts in turn. -/
theorem run_append (s : σ) (first second : List ι) :
    run step s (first ++ second) = (run step s first).bind fun next => run step next second := by
  induction first generalizing s with
  | nil => rfl
  | cons i first ih =>
    rw [List.cons_append, run_cons, run_cons, Option.bind_assoc]
    congr 1
    funext next
    exact ih next

/-- What one step preserves under a condition holds after every run along that condition. -/
theorem run_invariant_along (condition : σ → ι → Prop) (invariant : σ → Prop)
    (hstep : ∀ s i next, invariant s → condition s i → step s i = some next → invariant next)
    (s final : σ) (inputs : List ι) (hs : invariant s) (halong : Along step condition s inputs)
    (hrun : run step s inputs = some final) : invariant final := by
  induction inputs generalizing s with
  | nil =>
    obtain rfl : s = final := by simpa [run] using hrun
    exact hs
  | cons i inputs ih =>
    rw [run_cons, Option.bind_eq_some_iff] at hrun
    obtain ⟨next, hnext, hrest⟩ := hrun
    exact ih next (hstep s i next hs halong.1 hnext) (halong.2 next hnext) hrest

/-- What every step preserves holds after every run. -/
theorem run_invariant (invariant : σ → Prop)
    (hstep : ∀ s i next, invariant s → step s i = some next → invariant next)
    (s final : σ) (inputs : List ι) (hs : invariant s)
    (hrun : run step s inputs = some final) : invariant final := by
  induction inputs generalizing s with
  | nil =>
    obtain rfl : s = final := by simpa [run] using hrun
    exact hs
  | cons i inputs ih =>
    rw [run_cons, Option.bind_eq_some_iff] at hrun
    obtain ⟨next, hnext, hrest⟩ := hrun
    exact ih next (hstep s i next hs hnext) hrest

/-- A run whose states all keep a property, while every step against the condition breaks it for
good, meets the condition at every step. -/
theorem along_of_run (condition : σ → ι → Prop) (invariant broken : σ → Prop)
    (hstep : ∀ s i next, invariant s → condition s i → step s i = some next → invariant next)
    (hbreak : ∀ s i next, invariant s → ¬ condition s i → step s i = some next → broken next)
    (hkeep : ∀ s i next, broken s → step s i = some next → broken next)
    (s final : σ) (inputs : List ι) (hs : invariant s) (hrun : run step s inputs = some final)
    (hfinal : ¬ broken final) : Along step condition s inputs := by
  induction inputs generalizing s with
  | nil => trivial
  | cons i inputs ih =>
    rw [run_cons, Option.bind_eq_some_iff] at hrun
    obtain ⟨next, hnext, hrest⟩ := hrun
    have hcondition : condition s i := by
      by_contra hviolated
      exact hfinal (run_invariant step broken hkeep next final inputs
        (hbreak s i next hs hviolated hnext) hrest)
    refine ⟨hcondition, fun other hother => ?_⟩
    obtain rfl : next = other := by simpa [hnext] using hother
    exact ih next (hstep s i next hs hcondition hnext) hrest

/-- A run along a condition begins with runs along it. -/
theorem along_of_append (condition : σ → ι → Prop) (s : σ) (before after : List ι)
    (h : Along step condition s (before ++ after)) : Along step condition s before := by
  induction before generalizing s with
  | nil => trivial
  | cons i before ih => exact ⟨h.1, fun next hnext => ih next (h.2 next hnext)⟩

/-- A run whose states all have a property, while every step against the condition leads out of
it, meets the condition at every step. -/
theorem along_of_reached (condition : σ → ι → Prop) (invariant good : σ → Prop)
    (hstep : ∀ s i next, invariant s → condition s i → step s i = some next → invariant next)
    (hbad : ∀ s i next, invariant s → ¬ condition s i → step s i = some next → ¬ good next)
    (s final : σ) (inputs : List ι) (hs : invariant s) (hrun : run step s inputs = some final)
    (hgood : ∀ before after reached, inputs = before ++ after → run step s before = some reached →
      good reached) : Along step condition s inputs := by
  induction inputs generalizing s with
  | nil => trivial
  | cons i inputs ih =>
    rw [run_cons, Option.bind_eq_some_iff] at hrun
    obtain ⟨next, hnext, hrest⟩ := hrun
    have hcondition : condition s i := by
      by_contra hviolated
      refine hbad s i next hs hviolated hnext (hgood [i] inputs next rfl ?_)
      simp [run, hnext]
    refine ⟨hcondition, fun other hother => ?_⟩
    obtain rfl : next = other := by simpa [hnext] using hother
    refine ih next (hstep s i next hs hcondition hnext) hrest fun before after reached hsplit hreach => ?_
    refine hgood (i :: before) after reached (by rw [hsplit]; rfl) ?_
    rw [run_cons, hnext]
    exact hreach

section History

variable {η : Type*} (record : η → σ → ι → σ → η)

/-- The same system with a history variable that every step writes and no step reads. -/
def observed (s : σ × η) (i : ι) : Option (σ × η) :=
  (step s.1 i).map fun next => (next, record s.2 s.1 i next)

theorem observed_eq_some {s next : σ × η} {i : ι} (h : observed step record s i = some next) :
    step s.1 i = some next.1 ∧ next.2 = record s.2 s.1 i next.1 := by
  obtain ⟨state, hstate, rfl⟩ := Option.map_eq_some_iff.mp h
  exact ⟨hstate, rfl⟩

/-- Observation neither adds runs nor takes any away. -/
theorem run_observed (s : σ) (h : η) (inputs : List ι) :
    (run (observed step record) (s, h) inputs).map Prod.fst = run step s inputs := by
  induction inputs generalizing s h with
  | nil => rfl
  | cons i inputs ih =>
    rw [run_cons, run_cons, observed]
    cases step s i with
    | none => rfl
    | some next => exact ih next (record h s i next)

end History

end Transition
