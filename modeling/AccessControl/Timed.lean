import AccessControl.Context
import AccessControl.Program

/-! # Timed store calls

The stores beside a clock, where calls may be slow, may fail, or may never be answered. A fault acts
before the store is touched, so a call that fails or is cut off has changed nothing.
-/
namespace AccessControl

/-- How a list of memberships differs from what the store says. -/
inductive Distortion where
  | faithful
  /-- A group comes first that nobody stored. -/
  | ghost (id : GroupId)
  /-- Everything is listed twice. -/
  | doubled
  deriving DecidableEq, Repr

/-- What happens to a store call before the store sees it. -/
structure Fault where
  /-- How long the call waits; forever when there is no time. -/
  wait : Option Millis
  failure : Option AuthError
  distortion : Distortion
  deriving DecidableEq, Repr

namespace Fault

def none : Fault := ⟨some 0, .none, .faithful⟩

def distort (d : Distortion) : (c : StoreCall) → c.Reply → c.Reply
  | .memberships _, found =>
    match d with
    | .faithful => found
    | .ghost id => id :: found
    | .doubled => found ++ found
  | _, reply => reply

end Fault

abbrev Schedule := Nat → StoreCall → Fault

structure World where
  stores : Stores
  now : Millis
  /-- How many calls were started. -/
  calls : Nat

structure Conditions where
  schedule : Schedule
  /-- The moment after which nobody waits for an answer. -/
  horizon : Option Millis

def Conditions.calm : Conditions := ⟨fun _ _ => .none, none⟩

/-- A run from one world to another, with a result unless nobody sees it. -/
def Timed (α : Type) := World → Option (Result α) × World

namespace Timed

variable {α β : Type}

def bind (m : Timed α) (f : α → Timed β) : Timed β := fun w =>
  match m w with
  | (some (.ok a), w') => f a w'
  | (some (.error e), w') => (some (.error e), w')
  | (none, w') => (none, w')

instance : Monad Timed where
  pure a := fun w => (some (.ok a), w)
  bind := bind

def ofResult (r : Result α) : Timed α := fun w => (some r, w)

def fail (e : AuthError) : Timed α := ofResult (.error e)

def after (ctx : Context) (horizon : Option Millis) (wait : Option Millis)
    (act : World → Result α × World) : Timed α := fun w =>
  match ctx.ending horizon w.now wait with
  | .refused => (some (.error .deadlineExceeded), w)
  | .cut t => (some (.error .deadlineExceeded), { w with now := t })
  | .unanswered => (none, { w with now := horizon.getD w.now })
  | .finished t => let (r, w') := act { w with now := t }; (some r, w')

end Timed

def World.serve (w : World) (c : StoreCall) (fault : Fault) : Result c.Reply × World :=
  match fault.failure with
  | some e => (.error e, w)
  | none =>
    match w.stores.serve c with
    | .ok (reply, s) => (.ok (Fault.distort fault.distortion c reply), { w with stores := s })
    | .error e => (.error e, w)

namespace Program

variable {α : Type}

/-- Makes one call under a context. A call that is refused is not started. -/
def make (conditions : Conditions) (ctx : Context) (c : StoreCall) : Timed c.Reply := fun w =>
  let fault := conditions.schedule w.calls c
  let started := if ctx.isDone w.now then w else { w with calls := w.calls + 1 }
  Timed.after ctx conditions.horizon fault.wait (fun w => w.serve c fault) started

def perform (conditions : Conditions) (ctx : Context) : Program α → Timed α
  | .done r => Timed.ofResult r
  | .call c next => fun w =>
    match make conditions ctx c w with
    | (some r, w') => (next r).perform conditions ctx w'
    | (none, w') => (none, w')

end Program
end AccessControl
