import AccessControl.Calendar.Date

/-! # Instants

A moment of universal time: whole seconds since 1970 and the nanoseconds after them. A second that
the calendar inserts before midnight has the seconds of the one before it and nanoseconds from
`10 ^ 9` on.
-/
namespace AccessControl

structure Instant where
  seconds : Int
  nanos : Nat
  deriving DecidableEq, Repr

namespace Instant

def nanosPerSecond : Nat := 1000000000

def leastSeconds : Int := -8334601228800

def greatestSeconds : Int := 8210266876799

def latest : Instant := ⟨greatestSeconds, nanosPerSecond - 1⟩

def inCalendar (seconds : Int) : Bool := leastSeconds ≤ seconds && seconds ≤ greatestSeconds

def ofSeconds? (seconds : Int) : Option Instant :=
  if inCalendar seconds then some ⟨seconds, 0⟩ else none

/-- Whether a moment is in a second that the calendar has inserted. -/
def isInserted (t : Instant) : Bool := nanosPerSecond ≤ t.nanos

def le (a b : Instant) : Bool :=
  a.seconds < b.seconds || (a.seconds == b.seconds && a.nanos ≤ b.nanos)

def truncate (t : Instant) : Instant := ⟨t.seconds, t.nanos - t.nanos % nanosPerSecond⟩

/-- Whether a moment and a time after it lie in one inserted second. -/
def staysInserted (t : Instant) (nanos : Nat) : Bool :=
  t.isInserted && t.nanos + nanos < 2 * nanosPerSecond

/-- The nanoseconds from a whole second to a time after a moment. An inserted second that is left
does not count. -/
def passed (t : Instant) (nanos : Nat) : Nat :=
  if t.isInserted then t.nanos + nanos - nanosPerSecond else t.nanos + nanos

/-- A moment later by a number of nanoseconds, if the calendar reaches that far. -/
def add? (t : Instant) (nanos : Nat) : Option Instant :=
  if t.staysInserted nanos then some ⟨t.seconds, t.nanos + nanos⟩
  else
    let seconds := t.seconds + (t.passed nanos / nanosPerSecond : Nat)
    if inCalendar seconds then some ⟨seconds, t.passed nanos % nanosPerSecond⟩ else none

end Instant
end AccessControl
