import AccessControl.Scenario.Script

/-! # The state of a session

The timed world, the service in use, and everything that a script has named so far.
-/
namespace AccessControl.Scenario

/-- When a caller is going to give up. The delay counts from when the session first waits. -/
inductive Timer where
  | off
  | set (delay : Millis)
  | running (moment : Millis)

/-- The moment of a timer that runs from a start on, unless it was started before. -/
def Timer.moment (start : Millis) : Timer → Option Millis
  | .off => none
  | .set delay => some (start + delay)
  | .running t => some t

/-- The wish of a caller to stop, which several contexts may share. -/
structure Wish where
  cancelled : Bool
  timer : Timer

namespace Wish

def idle : Wish := ⟨false, .off⟩

def ofSpec (spec : ContextSpec) : Wish :=
  ⟨spec.cancelled, match spec.cancelAfter with
    | some delay => .set delay
    | none => .off⟩

/-- A wish is carried out only while the session waits, so one that is late is due now. -/
def cancelAt (w : Wish) (now : Millis) : Option Millis := (w.timer.moment now).map (max now)

/-- A wish after a wait: its timer runs, from the start of the wait if not from before, and what
came due during the wait is carried out. -/
def waited (w : Wish) (start : Millis) (cameDue : Millis → Bool) : Wish :=
  match w.timer.moment start with
  | some t => if cameDue t then ⟨true, .off⟩ else { w with timer := .running t }
  | none => w

end Wish

/-- A stored context: its deadline, and the number of its wish. -/
structure Handle where
  deadline : Option Millis
  wish : Nat

structure State where
  world : World
  service : IdentityService
  /-- The time of tokens and records, which stands still. -/
  clock : Instant
  faults : Dict String Fault
  issued : Dict String (Key × String)
  handles : Dict String Handle
  wishes : List Wish
  /-- How many identifiers were made. -/
  made : Nat
  groupsNamed : TextSet
  membersNamed : TextSet
  holdersNamed : Dict Principal Unit

inductive Reply where
  | done
  | value (v : Value)
  | failed (e : AuthError)
  /-- The answer did not come while anybody waited. -/
  | unanswered
  /-- The script asks for something that is not there. -/
  | unusable (reason : String)
  | context (remaining : Option Millis) (cancelled : Bool) (check : Result Unit)

structure Answer where
  reply : Reply
  audit : Option (List AuditRecord)

namespace Answer

def of (r : Reply) : Answer := ⟨r, none⟩

def ofResult {α : Type} (encode : α → Reply) : Result α → Answer
  | .ok a => of (encode a)
  | .error e => of (.failed e)

end Answer

namespace State

def start (secret : String) (timeout : Option Millis) (lifetimes : Lifetimes) (clock : Instant) :
    State :=
  { world := ⟨.empty, 0, 0⟩
    service := ⟨⟨⟨secret⟩⟩, ⟨timeout⟩, lifetimes.toKeyLifetimes⟩
    clock := clock
    faults := .empty
    issued := .empty
    handles := .empty
    wishes := []
    made := 0
    groupsNamed := Dict.empty
    membersNamed := Dict.empty
    holdersNamed := .empty }

def patience : Millis := 24 * 60 * 60 * 1000

def horizon (s : State) : Option Millis := some (s.world.now + patience)

def conditions (s : State) : Conditions :=
  ⟨fun _ c => (s.faults.get? (callName c)).getD Fault.none, s.horizon⟩

def wish (s : State) (n : Nat) : Wish := s.wishes.getD n .idle

def contextOf (s : State) (h : Handle) : Context :=
  let w := s.wish h.wish
  ⟨h.deadline, w.cancelled, w.cancelAt s.world.now⟩

def makeContext (s : State) (spec : ContextSpec) : Context :=
  let now := s.world.now
  let c : Context := match spec.timeout with
    | some t => .withTimeout now t
    | none => .background
  let w := Wish.ofSpec spec
  let c := { c with cancelled := w.cancelled, cancelAt := w.cancelAt now }
  match spec.bounded with
  | some limit => c.boundedBy now limit
  | none => c

def context? (s : State) : ContextName → Option Context
  | .background => some .background
  | .stored name => (s.handles.get? name).map s.contextOf
  | .made spec => some (s.makeContext spec)

def storeContext (s : State) (name : String) (deadline : Option Millis) (w : Wish) : State :=
  { s with
    handles := s.handles.insert name ⟨deadline, s.wishes.length⟩
    wishes := s.wishes ++ [w] }

def shareContext (s : State) (name source : String) : State :=
  match s.handles.get? source with
  | some h => { s with handles := s.handles.insert name h }
  | none => s

def waited (s : State) (start : Millis) (cameDue : Millis → Bool) : State :=
  { s with wishes := s.wishes.map (·.waited start cameDue) }

/-- The wishes after a run that began at a moment. Wishes of the moment at which the run ends come
due only with the next wait, unless a wish of that moment is what ended it. -/
def settle (s : State) (start : Millis) (gaveUp : Bool) : State :=
  let now := s.world.now
  if gaveUp then s.waited start (· ≤ now)
  else if start < now then s.waited start (· < now)
  else s

/-- Moves the clock. What was due before is carried out, and timers not started yet start
afterwards. -/
def advance (s : State) (time : Millis) : State :=
  let before := s.world.now
  let s := { s with world := { s.world with now := before + time } }
  s.waited s.world.now (· ≤ before)

def madeName (n : Nat) : String := s!"<gen:{n}>"

def identifier (s : State) : Option String → String × State
  | some id => (id, s)
  | none => (madeName (s.made + 1), { s with made := s.made + 1 })

def nameGroup (s : State) (id : GroupId) : State := { s with groupsNamed := s.groupsNamed.add id }

def nameMember (s : State) (member : String) : State :=
  { s with membersNamed := s.membersNamed.add member }

def nameHolder (s : State) (p : Principal) : State :=
  { s with holdersNamed := s.holdersNamed.insert p () }

/-- The text of a token: itself, or a name after an at sign, where a tilde drops the last
character. -/
def token? (s : State) (text : String) : Except String String :=
  match text.toList with
  | '@' :: rest =>
    let short := rest.getLast? == some '~'
    let name := String.ofList (if short then rest.dropLast else rest)
    match s.issued.get? name with
    | some (_, token) => .ok (if short then String.ofList token.toList.dropLast else token)
    | none => .error s!"no token '{name}'"
  | _ => .ok text

end State
end AccessControl.Scenario
