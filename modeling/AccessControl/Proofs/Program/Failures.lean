import AccessControl.Proofs.Program.Faults
import AccessControl.Proofs.Stores.Refusals

/-! # What programs fail with

A program that makes up no failures of its own fails as its calls do: with what a store refuses,
with a fault, or with a context that is over. As long as its calls are answered, so is the program.
-/
namespace AccessControl.Program

variable {α β : Type} {P : AuthError → Prop} {p : Program α} {c : StoreCall} {k : Conditions}
  {ctx : Context} {w : World} {e : AuthError}

inductive FailsOnlyWith (P : AuthError → Prop) : Program α → Prop
  | done {r : Result α} (hr : Result.FailsOnlyWith P r) : FailsOnlyWith P (.done r)
  | call {c : StoreCall} {next : Result c.Reply → Program α}
      (hok : ∀ reply, FailsOnlyWith P (next (.ok reply)))
    (herror : ∀ e, P e → FailsOnlyWith P (next (.error e))) : FailsOnlyWith P (.call c next)

namespace FailsOnlyWith

theorem ok (a : α) : FailsOnlyWith P (.done (.ok a)) := .done (.ok a)

theorem error (he : P e) : FailsOnlyWith P (.done (.error e) : Program α) := .done (.error he)

theorem ask (c : StoreCall) : FailsOnlyWith P (Program.ask c) :=
  .call (fun reply => .ok reply) fun _ he => .error he

theorem bind {f : α → Program β} (h : p.FailsOnlyWith P) (hf : ∀ a, (f a).FailsOnlyWith P) :
    (p >>= f).FailsOnlyWith P := by
  induction h with
  | @done r hr =>
    cases r with
    | ok a => exact hf a
    | error e => exact .error (hr e rfl)
  | call _ _ hok herror => exact .call hok herror

/-- A program whose own failures have a property ends with no other, if the calls fail with no
other. -/
theorem perform (h : p.FailsOnlyWith P)
    (hmake : ∀ c w e, (make k ctx c w).1 = some (.error e) → P e)
    (he : (p.perform k ctx w).1 = some (.error e)) : P e := by
  induction h generalizing w with
  | @done r hr => exact hr e (Option.some.inj he)
  | @call c next _ _ hok herror =>
    have hanswer := hmake c w
    simp only [Program.perform] at he
    generalize make k ctx c w = out at he hanswer
    obtain ⟨_ | (failure | reply), w'⟩ := out
    · cases he
    · exact herror failure (hanswer failure rfl) he
    · exact hok reply he

end FailsOnlyWith

/-- A call fails late, with a fault, or as the store refuses it. -/
theorem make_error (hlate : P .deadlineExceeded)
    (hfault : ∀ n c e, (k.schedule n c).failure = some e → P e)
    (hrefusal : ∀ e, e.isRefusal = true → P e) (c : StoreCall) (w : World) (e : AuthError)
    (he : (make k ctx c w).1 = some (.error e)) : P e := by
  cases ho : k.obstacle ctx w.calls w.now c with
  | some o =>
    rw [(make_of_obstacle ho).1] at he
    cases o with
    | late =>
      cases he
      exact hlate
    | silence => cases he
    | failure e' =>
      cases he
      exact hfault _ _ _ (Conditions.failure_of_obstacle ho)
  | none =>
    rw [make_of_no_obstacle ho] at he
    have hreply :=
      (w.stores.refuses_reply c).map (Fault.distort (k.schedule w.calls c).distortion c)
    exact hrefusal e (hreply e (Option.some.inj he))

theorem make_ne_none (hhorizon : k.horizon = none)
    (hends : ctx.stop ≠ none ∨ ∀ n c, (k.schedule n c).wait ≠ none) (c : StoreCall) (w : World) :
    (make k ctx c w).1 ≠ none := by
  cases ho : k.obstacle ctx w.calls w.now c with
  | none =>
    rw [make_of_no_obstacle ho]
    exact nofun
  | some o =>
    rw [(make_of_obstacle ho).1]
    cases o with
    | late => exact nofun
    | failure e => exact nofun
    | silence => exact absurd ho (Conditions.obstacle_ne_silence hhorizon hends)

theorem perform_ne_none (h : ∀ c w, (make k ctx c w).1 ≠ none) (p : Program α) (w : World) :
    (p.perform k ctx w).1 ≠ none := by
  induction p generalizing w with
  | done r => exact nofun
  | call c next ih =>
    have hmake := h c w
    simp only [perform]
    generalize make k ctx c w = out at hmake
    obtain ⟨_ | r, w'⟩ := out
    · exact absurd rfl hmake
    · exact ih r w'

end AccessControl.Program
