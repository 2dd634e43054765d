import AccessControl.Proofs.Program.Relations
import AccessControl.Proofs.Program.Traces

/-! # Courses of a program

A course is what a program may do when its calls are answered by anybody and in any way, and
differently when a call is made again: the calls that it makes, and its result if it gets that far.
Every run is a course, and so is every answer.
-/
namespace AccessControl.Program

variable {α β : Type} {p : Program α} {calls : List StoreCall} {out : Option (Result α)}

inductive Course : Program α → List StoreCall → Option (Result α) → Prop
  | stop (p : Program α) : Course p [] none
  | done (r : Result α) : Course (.done r) [] (some r)
  | call {c : StoreCall} {next : Result c.Reply → Program α} {calls : List StoreCall}
      {out : Option (Result α)}
    (reply : Result c.Reply) (hrest : Course (next reply) calls out) :
      Course (.call c next) (c :: calls) out

namespace Course

theorem nil_of_done {r : Result α} (h : (Program.done r).Course calls out) :
    calls = [] ∧ (out = none ∨ out = some r) := by
  cases h with
  | stop => exact ⟨rfl, .inl rfl⟩
  | done => exact ⟨rfl, .inr rfl⟩

/-- A course of one program and then another one ends within the first, or goes through it with a
result. -/
theorem of_bind {f : α → Program β} {out : Option (Result β)} (h : (p >>= f).Course calls out) :
    (∃ stopped, p.Course calls stopped ∧ ∀ b, out ≠ some (.ok b)) ∨
    ∃ a first rest, calls = first ++ rest ∧ p.Course first (some (.ok a)) ∧
      (f a).Course rest out := by
  induction p generalizing calls with
  | done r =>
    rcases r with e | a
    · obtain ⟨rfl, hout⟩ := nil_of_done h
      refine .inl ⟨none, .stop _, ?_⟩
      rcases hout with rfl | rfl <;> exact nofun
    · exact .inr ⟨a, [], calls, rfl, .done _, h⟩
  | call c next ih =>
    cases h with
    | stop => exact .inl ⟨none, .stop _, nofun⟩
    | call reply hrest =>
      rcases ih reply hrest with ⟨stopped, hstopped, hout⟩ | ⟨a, first, rest, rfl, hfirst, hlast⟩
      · exact .inl ⟨stopped, .call reply hstopped, hout⟩
      · exact .inr ⟨a, c :: first, rest, rfl, .call reply hfirst, hlast⟩

end Course

theorem Makes.of_course {made : StoreCall → Prop} (h : p.Makes made)
    (hcourse : p.Course calls out) :
    ∀ c ∈ calls, made c := by
  induction hcourse with
  | stop | done => exact nofun
  | call reply _ ih =>
    cases h with
    | call hmade hnext => exact List.forall_mem_cons.2 ⟨hmade, ih (hnext reply)⟩

/-- What a run comes to, whatever stands in its way, is a course. -/
theorem course_perform (k : Conditions) (ctx : Context) (p : Program α) (w : World) :
    p.Course ((p.reached k ctx w).map (·.call)) (p.perform k ctx w).1 := by
  induction p generalizing w with
  | done r => exact .done r
  | call c next ih =>
    simp only [reached, perform]
    generalize make k ctx c w = out
    obtain ⟨_ | r, w'⟩ := out
    · exact .call (.error .deadlineExceeded) (.stop _)
    · exact .call r (ih r w')

theorem exists_course_answer (oracle : (c : StoreCall) → Result c.Reply) (p : Program α) :
    ∃ calls, p.Course calls (some (p.answer oracle)) := by
  induction p with
  | done r => exact ⟨[], .done r⟩
  | call c next ih =>
    obtain ⟨calls, hcalls⟩ := ih (oracle c)
    exact ⟨c :: calls, .call (oracle c) hcalls⟩

/-- Oracles that agree on all calls that a program can make get the same answer out of it. -/
theorem Makes.answer_congr {made : StoreCall → Prop}
    {oracle oracle' : (c : StoreCall) → Result c.Reply} (h : p.Makes made)
    (hsame : ∀ c, made c → oracle' c = oracle c) : p.answer oracle' = p.answer oracle := by
  induction h with
  | done r => rfl
  | @call c next hmade _ ih =>
    rw [answer, answer, hsame c hmade]
    exact ih _

end AccessControl.Program
