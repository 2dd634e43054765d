import AccessControl.Stores

/-! # Programs over the stores

What an operation does with the replies to its store calls, apart from when the calls are made and
whether they succeed. A program meets an oracle that answers its calls, or stores that serve them,
or a timed world with faults.
-/
namespace AccessControl

inductive Program (α : Type) where
  | done (r : Result α)
  | call (c : StoreCall) (next : Result c.Reply → Program α)

namespace Program

variable {α β : Type}

def bind : Program α → (α → Program β) → Program β
  | .done (.ok a), f => f a
  | .done (.error e), _ => .done (.error e)
  | .call c next, f => .call c fun r => (next r).bind f

instance : Monad Program where
  pure a := .done (.ok a)
  bind := bind

def fail (e : AuthError) : Program α := .done (.error e)

def ask (c : StoreCall) : Program c.Reply := .call c .done

def answer (oracle : (c : StoreCall) → Result c.Reply) : Program α → Result α
  | .done r => r
  | .call c next => (next (oracle c)).answer oracle

/-- The result when calls are served at once, and the stores afterwards. -/
def run (s : Stores) : Program α → Result α × Stores
  | .done r => (r, s)
  | .call c next =>
    match s.serve c with
    | .ok (reply, s') => (next (.ok reply)).run s'
    | .error e => (next (.error e)).run s

end Program
end AccessControl
