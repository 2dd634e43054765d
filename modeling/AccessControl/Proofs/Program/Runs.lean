import AccessControl.Program
import AccessControl.Proofs.Stores.Runs

/-! # Runs of programs

A run is told by the calls that it makes. When all of them are queries it leaves the stores as they
are, and its result is what the program makes of the answers.
-/
namespace AccessControl.Program

variable {α β : Type} {s : Stores} {c : StoreCall} {p : Program α}

def calls (s : Stores) : Program α → List StoreCall
  | .done _ => []
  | .call c next => c :: (next (s.reply c)).calls (s.after c)

theorem run_call (next : Result c.Reply → Program α) :
    (call c next).run s = (next (s.reply c)).run (s.after c) := by
  rw [run, Stores.reply, Stores.after]
  cases s.serve c with
  | ok r => rfl
  | error e => rfl

theorem run_bind (p : Program α) (f : α → Program β) (s : Stores) :
    (p >>= f).run s = match p.run s with
      | (.ok a, s') => (f a).run s'
      | (.error e, s') => (.error e, s') := by
  induction p generalizing s with
  | done r => cases r <;> rfl
  | call c next ih =>
    show (call c fun r => next r >>= f).run s = _
    rw [run_call, run_call, ih]

theorem run_eq_answer (h : ∀ c ∈ p.calls s, c.isQuery = true) :
    p.run s = (p.answer s.reply, s) := by
  induction p with
  | done r => rfl
  | call c next ih =>
    have hsame := Stores.after_query (s := s) (h c (List.mem_cons_self ..))
    have hrest := ih (s.reply c) fun d hd => h d (List.mem_cons_of_mem _ (by rwa [hsame]))
    rw [run_call, hsame, hrest]
    rfl

theorem answer_bind (p : Program α) (f : α → Program β)
    (oracle : (c : StoreCall) → Result c.Reply) :
    (p >>= f).answer oracle = p.answer oracle >>= fun a => (f a).answer oracle := by
  induction p with
  | done r => cases r <;> rfl
  | call c next ih => exact ih (oracle c)

end AccessControl.Program
