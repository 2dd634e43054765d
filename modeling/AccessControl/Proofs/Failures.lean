import AccessControl.AuthError

/-! # How results fail

What all failures of a computation have in common follows from what the failures of its parts have.
-/
namespace AccessControl.Result

variable {α β : Type} {P : AuthError → Prop} {r : Result α} {f : α → Result β} {e : AuthError}

def FailsOnlyWith (P : AuthError → Prop) (r : Result α) : Prop := ∀ e, r = .error e → P e

namespace FailsOnlyWith

theorem ok (a : α) : FailsOnlyWith P (.ok a) := nofun

theorem error (he : P e) : FailsOnlyWith P (.error e : Result α) := by
  intro e' h
  cases h
  exact he

theorem bind (hr : FailsOnlyWith P r) (hf : ∀ a, FailsOnlyWith P (f a)) :
    FailsOnlyWith P (r >>= f) := by
  cases r with
  | ok a => exact hf a
  | error e => exact .error (hr e rfl)

theorem map (hr : FailsOnlyWith P r) (f : α → β) : FailsOnlyWith P (r.map f) := by
  intro e h
  cases r with
  | ok a => cases h
  | error e =>
    cases h
    exact hr e rfl

theorem guard {c : Prop} [Decidable c] (he : P e) (hr : FailsOnlyWith P r) :
    FailsOnlyWith P (if c then .error e else r) := by
  split
  · exact .error he
  · exact hr

end FailsOnlyWith

end AccessControl.Result
