import AccessControl.InPlace
import AccessControl.Timed

/-! # Polls

How a call under a context is carried out. It is polled at some moments, and between two of them the
clock may move and anybody who shares the context may give up. Each poll looks at the caller first,
then at the call, and at the deadline only when the call still waits. A call that no longer waits
acts within the poll that answers.
-/
namespace AccessControl

structure Moment where
  now : Millis
  /-- The caller has given up by then. -/
  cancelled : Bool

structure Poll extends Moment where
  /-- The call has waited for as long as it has to. -/
  ready : Bool

/-- A computation by polls. Each gives a result or goes on waiting, and there is a state afterwards
in any case. -/
def Polled (σ α : Type) := Poll → σ → Option (Result α) × σ

namespace Polled

variable {σ α : Type}

def call (act : InPlace σ α) : Polled σ α := fun poll s =>
  if poll.ready then (some (act s).1, (act s).2) else (none, s)

def before (deadline : Option Millis) (p : Polled σ α) : Polled σ α := fun poll s =>
  match p poll s with
  | (some r, s') => (some r, s')
  | (none, s') =>
    if deadline.any (· ≤ poll.now) then (some (.error .deadlineExceeded), s') else (none, s')

/-- A computation is no longer polled when the caller has given up. -/
def unlessCancelled (p : Polled σ α) : Polled σ α := fun poll s =>
  if poll.cancelled then (some (.error .deadlineExceeded), s) else p poll s

def repeated (p : Polled σ α) : List Poll → σ → Option (Result α) × σ
  | [], s => (none, s)
  | poll :: rest, s =>
    match p poll s with
    | (some r, s') => (some r, s')
    | (none, s') => p.repeated rest s'

end Polled

/-- What a call under a context finds when it is made, and at each poll after that. -/
structure Visit where
  entry : Moment
  polls : List Poll

def Visit.make {σ α : Type} (v : Visit) (deadline : Option Millis) (p : Polled σ α) (s : σ) :
    Option (Result α) × σ :=
  if v.entry.cancelled || deadline.any (· ≤ v.entry.now) then (some (.error .deadlineExceeded), s)
  else (p.before deadline).unlessCancelled.repeated v.polls s

/-- Performs a program with every call under one deadline, as long as somebody polls. -/
def Program.polled {α : Type} (deadline : Option Millis) :
    Program α → List Visit → Stores → Option (Result α) × Stores
  | .done r, _, s => (some r, s)
  | .call _ _, [], s => (none, s)
  | .call c next, v :: rest, s =>
    match v.make deadline (.call c.inPlace) s with
    | (some r, s') => (next r).polled deadline rest s'
    | (none, s') => (none, s')

namespace Context

/-- The polls at a moment: one when the clock gets there, and one after the caller may have given
up. -/
def pollsAt (ctx : Context) (due : Option Millis) (t : Millis) : List Poll :=
  [⟨⟨t, ctx.isCancelled t⟩, due.any (· ≤ t)⟩,
    ⟨⟨t, ctx.isCancelled t || ctx.cancelAt == some t⟩, due.any (· ≤ t)⟩]

/-- A call that starts at a moment and waits for a time, or forever, is polled as it starts and when
the first thing happens. -/
def visit (ctx : Context) (start : Millis) (wait : Option Millis) : Visit :=
  let due := wait.map (start + ·)
  ⟨⟨start, ctx.isCancelled start⟩,
    ctx.pollsAt due start ++ (earlier due ctx.stop).toList.flatMap (ctx.pollsAt due)⟩

end Context
end AccessControl
