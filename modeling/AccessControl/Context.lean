import AccessControl.AuthError

/-! # Request contexts

Until when a request may go on: a deadline, and the caller's own wish to stop. A call that starts
too late is refused; a call still waiting when time runs out is cut off at that moment, and one that
ends exactly then still counts.
-/
namespace AccessControl

abbrev Millis := Nat

structure Context where
  deadline : Option Millis
  /-- The caller has given up. -/
  cancelled : Bool
  /-- The moment after which the caller gives up. -/
  cancelAt : Option Millis
  deriving DecidableEq, Repr

namespace Context

def background : Context := ⟨none, false, none⟩

def withTimeout (now timeout : Millis) : Context := ⟨some (now + timeout), false, none⟩

/-- Moves the deadline to a limit from now, unless it is earlier already. -/
def boundedBy (c : Context) (now limit : Millis) : Context :=
  { c with deadline := some ((c.deadline.map fun d => min d (now + limit)).getD (now + limit)) }

def isCancelled (c : Context) (now : Millis) : Bool := c.cancelled || c.cancelAt.any (· < now)

def isDone (c : Context) (now : Millis) : Bool := c.isCancelled now || c.deadline.any (· ≤ now)

def check (c : Context) (now : Millis) : Result Unit :=
  if c.isDone now then .error .deadlineExceeded else .ok ()

def remaining (c : Context) (now : Millis) : Option Millis := c.deadline.map (· - now)

def earlier : Option Millis → Option Millis → Option Millis
  | some a, some b => some (min a b)
  | some a, none => some a
  | none, b => b

/-- The moment at which a waiting call is cut off. -/
def stop (c : Context) : Option Millis := earlier c.deadline c.cancelAt

/-- Whether a call that starts at one moment and is cut off at another ends so because the caller
gives up, and not because of the deadline. -/
def givesUp (c : Context) (start moment : Millis) : Bool :=
  !c.isDone start && c.cancelAt == some moment && c.deadline != some moment

inductive Ending where
  /-- It was too late to start. -/
  | refused
  /-- Time ran out while it was waiting. -/
  | cut (moment : Millis)
  | finished (moment : Millis)
  /-- It goes on for as long as anybody watches. -/
  | unanswered
  deriving DecidableEq, Repr

def seen (horizon : Option Millis) (t : Millis) : Bool := horizon.all (t ≤ ·)

/-- Whether somebody still watches when a call is cut off. A deadline is noticed at the horizon
itself, a caller who gives up then is not. -/
def seenCut (c : Context) (horizon : Option Millis) (t : Millis) : Bool :=
  seen horizon t && (c.deadline == some t || horizon != some t)

/-- The end of a call that starts now and takes a time, or forever, when nobody watches after the
horizon. -/
def ending (c : Context) (horizon : Option Millis) (now : Millis) (wait : Option Millis) : Ending :=
  if c.isDone now then .refused
  else
    match wait.map (now + ·), c.stop with
    | some t, none => if seen horizon t then .finished t else .unanswered
    | some t, some s =>
      if t ≤ s then (if seen horizon t then .finished t else .unanswered)
      else (if c.seenCut horizon s then .cut s else .unanswered)
    | none, some s => if c.seenCut horizon s then .cut s else .unanswered
    | none, none => .unanswered

end Context
end AccessControl
