import AccessControl.Proofs.Stores.Runs
import Mathlib.Data.List.Induction

/-! # The history of a run

Only calls that succeed leave anything behind. What stands after a run is what one of them has set
and none of those after it has cleared, if each call that succeeds does nothing else about it.
-/
namespace AccessControl

/-- Something was set, and nothing since then has cleared it. -/
def Stands {α : Type} (sets clears : α → Prop) (history : List α) : Prop :=
  ∃ before c after, history = before ++ c :: after ∧ sets c ∧ ∀ d ∈ after, ¬clears d

section Stands

variable {α : Type} {sets clears : α → Prop} {history : List α} {c : α}

theorem not_stands_nil : ¬Stands sets clears [] := by
  rintro ⟨before, c, after, hsplit, -⟩
  exact List.append_ne_nil_of_right_ne_nil before (List.cons_ne_nil c after) hsplit.symm

/-- What stands after one more call was set by it, or stood before and is not cleared by it. -/
theorem stands_concat :
    Stands sets clears (history ++ [c]) ↔ sets c ∨ Stands sets clears history ∧ ¬clears c := by
  constructor
  · rintro ⟨before, d, after, hsplit, hsets, hafter⟩
    rcases List.eq_nil_or_concat after with rfl | ⟨after, last, rfl⟩
    · left
      obtain ⟨-, hlast⟩ := List.append_inj' hsplit rfl
      rwa [List.singleton_inj.1 hlast]
    · right
      rw [List.concat_eq_append] at hsplit hafter
      have hsplit' : history ++ [c] = (before ++ d :: after) ++ [last] := by simpa using hsplit
      obtain ⟨hhistory, hlast⟩ := List.append_inj' hsplit' rfl
      rw [List.singleton_inj.1 hlast]
      refine ⟨⟨before, d, after, hhistory, hsets, fun e he => hafter e (List.mem_append_left _ he)⟩,
        ?_⟩
      exact hafter last (List.mem_append_right _ (List.mem_singleton_self _))
  · rintro (hsets | ⟨⟨before, d, after, rfl, hsets, hafter⟩, hkept⟩)
    · exact ⟨history, c, [], rfl, hsets, nofun⟩
    · refine ⟨before, d, after ++ [c], by simp, hsets, fun e he => ?_⟩
      rcases List.mem_append.1 he with he | he
      · exact hafter e he
      · rwa [List.mem_singleton.1 he]

end Stands

namespace Stores

variable {s : Stores} {calls : List StoreCall} {c : StoreCall}

def successes (s : Stores) : List StoreCall → List StoreCall
  | [] => []
  | c :: rest =>
    match s.serve c with
    | .ok (_, s') => c :: s'.successes rest
    | .error _ => s.successes rest

theorem afterAll_concat (s : Stores) (calls : List StoreCall) (c : StoreCall) :
    s.afterAll (calls ++ [c]) = (s.afterAll calls).after c := by
  rw [afterAll, List.foldl_append]
  rfl

theorem successes_cons_of_ok {reply : c.Reply} {s' : Stores} (h : s.serve c = .ok (reply, s')) :
    s.successes (c :: calls) = c :: s'.successes calls ∧
      s.afterAll (c :: calls) = s'.afterAll calls := by
  rw [successes, afterAll, List.foldl_cons, after, h]
  exact ⟨rfl, rfl⟩

theorem successes_cons_of_error {e : AuthError} (h : s.serve c = .error e) :
    s.successes (c :: calls) = s.successes calls ∧ s.afterAll (c :: calls) = s.afterAll calls := by
  rw [successes, afterAll, List.foldl_cons, after, h]
  exact ⟨rfl, rfl⟩

theorem successes_append (s : Stores) (calls more : List StoreCall) :
    s.successes (calls ++ more) = s.successes calls ++ (s.afterAll calls).successes more := by
  induction calls generalizing s with
  | nil => rfl
  | cons c rest ih =>
    rw [List.cons_append]
    cases h : s.serve c with
    | ok r =>
      rw [(successes_cons_of_ok h).1, (successes_cons_of_ok h).1, (successes_cons_of_ok h).2, ih]
      rfl
    | error e =>
      rw [(successes_cons_of_error h).1, (successes_cons_of_error h).1,
        (successes_cons_of_error h).2, ih]

/-- What becomes true of the stores when it is set and false when it is cleared, and does not change
otherwise, is true where it stands in the history of the run. -/
theorem stands_successes_iff {P : Stores → Prop} {sets clears : StoreCall → Prop} (start : ¬P s)
    (step : ∀ calls c reply s', (s.afterAll calls).serve c = .ok (reply, s') →
      (P s' ↔ sets c ∨ P (s.afterAll calls) ∧ ¬clears c)) (calls : List StoreCall) :
    P (s.afterAll calls) ↔ Stands sets clears (s.successes calls) := by
  induction calls using List.reverseRecOn with
  | nil => exact iff_of_false start not_stands_nil
  | append_singleton calls c ih =>
    rw [afterAll_concat, successes_append]
    cases h : (s.afterAll calls).serve c with
    | ok r =>
      obtain ⟨reply, s'⟩ := r
      have hafter : (s.afterAll calls).after c = s' := by rw [after, h]
      rw [hafter, (successes_cons_of_ok h).1, successes, stands_concat, ← ih]
      exact step calls c reply s' h
    | error e =>
      have hafter : (s.afterAll calls).after c = s.afterAll calls := by rw [after, h]
      rw [hafter, (successes_cons_of_error h).1, successes, List.append_nil]
      exact ih

end Stores
end AccessControl
