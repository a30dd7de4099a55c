import Mathlib.Data.List.Basic

/-!
# Replies of one object to many calls

An object takes calls one after the other and replies to each, unless a call does not return. Its
replies are compared with those that a new object gives to each call alone.
-/

namespace Replies

variable {σ ι ρ : Type*} (call : σ → ι → σ × Option ρ)

/-- The replies of one object, up to the first call that does not return. -/
def replies (s : σ) : List ι → List (Option ρ)
  | [] => []
  | i :: calls =>
    match call s i with
    | (_, none) => [none]
    | (s, some r) => some r :: replies s calls

/-- The replies of a new object to each call alone. -/
def repliesAlone (new : σ) : List ι → List (Option ρ)
  | [] => []
  | i :: calls =>
    match (call new i).2 with
    | none => [none]
    | some r => some r :: repliesAlone new calls

/-- An object replies like a new one if all it keeps is as clean as in a new one. -/
theorem replies_eq_repliesAlone (new : σ) (clean : σ → Prop)
    (hkept : ∀ s i next r, clean s → call s i = (next, some r) → clean next)
    (hreply : ∀ s i, clean s → (call s i).2 = (call new i).2) (s : σ) (hs : clean s)
    (calls : List ι) : replies call s calls = repliesAlone call new calls := by
  induction calls generalizing s with
  | nil => rfl
  | cons i calls ih =>
    have hsame := hreply s i hs
    rw [replies, repliesAlone, ← hsame]
    rcases hcall : call s i with ⟨next, _ | r⟩
    · rfl
    · simp only
      rw [ih next (hkept s i next r hs hcall)]

end Replies
