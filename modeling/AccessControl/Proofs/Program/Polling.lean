import AccessControl.Polling
import AccessControl.Proofs.Decision.Inheritance
import AccessControl.Proofs.Program.Relations
import AccessControl.Proofs.Program.Traces
import AccessControl.Proofs.Stores.InPlace

/-! # Calls that are polled

A call under a context is settled at one poll, the first at which the caller has given up, the call
no longer waits, or the deadline has come. Only there can the state change, and only when the call
acts. The run beside a clock is the run by polls at the moments when something happens.
-/
namespace AccessControl

def Poll.settles (deadline : Option Millis) (poll : Poll) : Bool :=
  poll.cancelled || poll.ready || deadline.any (· ≤ poll.now)

namespace Polled

variable {σ α : Type} {act : InPlace σ α} {deadline : Option Millis} {poll : Poll}
  {polls : List Poll} {s : σ}

abbrev guarded (deadline : Option Millis) (act : InPlace σ α) : Polled σ α :=
  ((call act).before deadline).unlessCancelled

theorem guarded_of_cancelled (h : poll.cancelled = true) :
    guarded deadline act poll s = (some (.error .deadlineExceeded), s) := if_pos h

theorem guarded_of_ready (hcancelled : poll.cancelled = false) (h : poll.ready = true) :
    guarded deadline act poll s = (some (act s).1, (act s).2) := by
  rw [guarded, unlessCancelled, if_neg (Bool.eq_false_iff.1 hcancelled), before, call, if_pos h]

theorem guarded_of_waiting (hcancelled : poll.cancelled = false) (hready : poll.ready = false) :
    guarded deadline act poll s =
      if deadline.any (· ≤ poll.now) then (some (.error .deadlineExceeded), s) else (none, s) := by
  rw [guarded, unlessCancelled, if_neg (Bool.eq_false_iff.1 hcancelled), before, call,
    if_neg (Bool.eq_false_iff.1 hready)]

theorem guarded_of_not_settles (h : poll.settles deadline = false) :
    guarded deadline act poll s = (none, s) := by
  simp only [Poll.settles, Bool.or_eq_false_iff] at h
  obtain ⟨⟨hcancelled, hready⟩, hdeadline⟩ := h
  rw [guarded_of_waiting hcancelled hready, if_neg (Bool.eq_false_iff.1 hdeadline)]

def settled (act : InPlace σ α) (poll : Poll) : InPlace σ α := fun s =>
  if poll.cancelled = false ∧ poll.ready = true then act s else (.error .deadlineExceeded, s)

theorem guarded_of_settles (h : poll.settles deadline = true) :
    guarded deadline act poll s = (some (settled act poll s).1, (settled act poll s).2) := by
  cases hcancelled : poll.cancelled with
  | true => rw [guarded_of_cancelled hcancelled, settled, if_neg (by simp [hcancelled])]
  | false =>
    cases hready : poll.ready with
    | true => rw [guarded_of_ready hcancelled hready, settled, if_pos ⟨hcancelled, hready⟩]
    | false =>
      have hdeadline : deadline.any (· ≤ poll.now) = true := by
        simpa [Poll.settles, hcancelled, hready] using h
      rw [guarded_of_waiting hcancelled hready, if_pos hdeadline, settled,
        if_neg (by simp [hready])]

def outcome (act : InPlace σ α) (s : σ) : Option Poll → Option (Result α) × σ
  | some poll => (some (settled act poll s).1, (settled act poll s).2)
  | none => (none, s)

/-- The first poll at which something happens gives the outcome. -/
theorem repeated_guarded (deadline : Option Millis) (act : InPlace σ α) (polls : List Poll)
    (s : σ) :
    (guarded deadline act).repeated polls s = outcome act s (polls.find? (·.settles deadline)) := by
  induction polls with
  | nil => rfl
  | cons poll rest ih =>
    rw [repeated]
    cases h : poll.settles deadline with
    | true =>
      rw [guarded_of_settles h, List.find?_cons_of_pos h]
      rfl
    | false =>
      rw [guarded_of_not_settles h, List.find?_cons_of_neg (Bool.eq_false_iff.1 h)]
      exact ih

end Polled

namespace Visit

variable {σ α : Type} {v : Visit} {deadline : Option Millis} {act : InPlace σ α} {s : σ}

def refused (deadline : Option Millis) (v : Visit) : Bool :=
  v.entry.cancelled || deadline.any (· ≤ v.entry.now)

/-- A call that is refused is not polled, whatever it would do. -/
theorem make_of_refused (h : v.refused deadline = true) (p : Polled σ α) (s : σ) :
    v.make deadline p s = (some (.error .deadlineExceeded), s) := if_pos h

theorem make_of_not_refused (h : v.refused deadline = false) (act : InPlace σ α) (s : σ) :
    v.make deadline (.call act) s = Polled.outcome act s (v.polls.find? (·.settles deadline)) := by
  rw [← Polled.repeated_guarded]
  exact if_neg (Bool.eq_false_iff.1 h)

/-- A call is made as a whole or not at all. -/
theorem make_cases (v : Visit) (deadline : Option Millis) (act : InPlace σ α) (s : σ) :
    v.make deadline (.call act) s = (none, s) ∨
    v.make deadline (.call act) s = (some (.error .deadlineExceeded), s) ∨
    v.make deadline (.call act) s = (some (act s).1, (act s).2) := by
  cases h : v.refused deadline with
  | true => exact .inr (.inl (make_of_refused h _ s))
  | false =>
    rw [make_of_not_refused h]
    cases v.polls.find? (·.settles deadline) with
    | none => exact .inl rfl
    | some poll =>
      rw [Polled.outcome, Polled.settled]
      split
      · exact .inr (.inr rfl)
      · exact .inr (.inl rfl)

/-- A call has no answer as long as it could be made and nothing has happened since. -/
theorem make_eq_none_iff (v : Visit) (deadline : Option Millis) (act : InPlace σ α) (s : σ) :
    (v.make deadline (.call act) s).1 = none ↔
      v.refused deadline = false ∧ ∀ poll ∈ v.polls, poll.settles deadline = false := by
  cases h : v.refused deadline with
  | true =>
    rw [make_of_refused h]
    exact ⟨nofun, nofun⟩
  | false =>
    have hnone := List.find?_eq_none (p := (·.settles deadline)) (l := v.polls)
    rw [make_of_not_refused h]
    cases hfind : v.polls.find? (·.settles deadline) with
    | none => exact ⟨fun _ => ⟨rfl, by simpa using hnone.1 hfind⟩, fun _ => rfl⟩
    | some poll =>
      refine ⟨nofun, fun hquiet => ?_⟩
      have hsettles : poll.settles deadline = true := List.find?_some hfind
      cases hsettles.symm.trans (hquiet.2 poll (List.mem_of_find?_eq_some hfind))

end Visit
namespace Context

variable {ctx : Context} {due wait : Option Millis} {start t : Millis}

/-- Nobody gives up before the context is stopped. -/
theorem isCancelled_eq_false (hdone : ctx.isDone start = false)
    (h : ∀ s, ctx.stop = some s → t ≤ s) :
    ctx.isCancelled t = false := by
  obtain ⟨hcancelled, -, -⟩ := isDone_eq_false_iff.1 hdone
  have hcancel : ∀ c, ctx.cancelAt = some c → t ≤ c := by
    intro c hc
    obtain ⟨s, hs, hle⟩ : ∃ s, ctx.stop = some s ∧ s ≤ c := exists_earlier_le (.inr hc)
    exact Nat.le_trans (h s hs) hle
  simpa [isCancelled, hcancelled, Option.any_eq_false] using hcancel

theorem find?_pollsAt_of_due (hcancelled : ctx.isCancelled t = false)
    (hdue : due.any (· ≤ t) = true) :
    (ctx.pollsAt due t).find? (·.settles ctx.deadline) = some ⟨⟨t, false⟩, true⟩ := by
  rw [pollsAt, hcancelled, hdue, List.find?_cons_of_pos (by simp [Poll.settles])]

/-- A deadline is noticed by the first poll at that moment, a caller who gives up then by the
second. -/
theorem find?_pollsAt_of_stop (hcancelled : ctx.isCancelled t = false)
    (hdue : due.any (· ≤ t) = false) (hstop : ctx.stop = some t) :
    ∃ cancelled, (ctx.pollsAt due t).find? (·.settles ctx.deadline) =
      some ⟨⟨t, cancelled⟩, false⟩ := by
  rw [pollsAt, hcancelled, hdue]
  cases hdeadline : ctx.deadline.any (· ≤ t) with
  | true =>
    refine ⟨false, ?_⟩
    rw [List.find?_cons_of_pos (by simp [Poll.settles, hdeadline])]
  | false =>
    have hcancel : ctx.cancelAt = some t := by
      rcases earlier_eq_some hstop with h | h
      · simp [h] at hdeadline
      · exact h
    refine ⟨true, ?_⟩
    rw [List.find?_cons_of_neg (by simp [Poll.settles, hdeadline]),
      List.find?_cons_of_pos (by simp [Poll.settles, hcancel]), hcancel]
    simp

/-- Before the first thing happens, polls settle nothing. -/
theorem find?_pollsAt_of_quiet (hcancelled : ctx.isCancelled t = false)
    (h : ∀ s, earlier due ctx.stop = some s → t < s) :
    (ctx.pollsAt due t).find? (·.settles ctx.deadline) = none := by
  have hlater : ∀ x, due = some x ∨ ctx.stop = some x → t < x := by
    intro x hx
    obtain ⟨s, hs, hle⟩ := exists_earlier_le hx
    exact Nat.lt_of_lt_of_le (h s hs) hle
  have hstop : ∀ x, ctx.deadline = some x ∨ ctx.cancelAt = some x → t < x := by
    intro x hx
    obtain ⟨s, hs, hle⟩ : ∃ s, ctx.stop = some s ∧ s ≤ x := exists_earlier_le hx
    exact Nat.lt_of_lt_of_le (hlater s (.inr hs)) hle
  have hdue : due.any (· ≤ t) = false := by
    simpa [Option.any_eq_false] using fun x hx => hlater x (.inl hx)
  have hdeadline : ctx.deadline.any (· ≤ t) = false := by
    simpa [Option.any_eq_false] using fun x hx => hstop x (.inl hx)
  have hcancel : ctx.cancelAt ≠ some t := fun hc => Nat.lt_irrefl t (hstop t (.inr hc))
  simp [pollsAt, Poll.settles, hcancelled, hdue, hdeadline, hcancel]

theorem refused_visit (ctx : Context) (start : Millis) (wait : Option Millis) :
    (ctx.visit start wait).refused ctx.deadline = ctx.isDone start := rfl

/-- The polls at the start settle what the first thing that happens settles, or nothing. -/
theorem find?_visit (hdone : ctx.isDone start = false) (hstart : start ≤ t)
    (hfirst : earlier due ctx.stop = some t) :
    ((ctx.pollsAt due start).find? (·.settles ctx.deadline)).or
        ((ctx.pollsAt due t).find? (·.settles ctx.deadline)) =
      (ctx.pollsAt due t).find? (·.settles ctx.deadline) := by
  rcases Nat.eq_or_lt_of_le hstart with rfl | hlt
  · exact Option.or_self
  · have hopen : ctx.isCancelled start = false :=
      isCancelled_eq_false hdone fun s hs => le_stop hdone hs
    have hquiet : ∀ s, earlier due ctx.stop = some s → start < s := by
      intro s hs
      cases hfirst.symm.trans hs
      exact hlt
    rw [find?_pollsAt_of_quiet hopen hquiet, Option.none_or]

def Ending.outcome {σ α : Type} (act : InPlace σ α) (s : σ) : Ending → Option (Result α) × σ
  | refused | cut _ => (some (.error .deadlineExceeded), s)
  | finished _ => (some (act s).1, (act s).2)
  | unanswered => (none, s)

/-- Beside a clock a call is settled by the polls of its visit. -/
theorem make_visit (ctx : Context) (start : Millis) (wait : Option Millis) {σ α : Type}
    (act : InPlace σ α) (s : σ) :
    (ctx.visit start wait).make ctx.deadline (.call act) s =
      (ctx.ending none start wait).outcome act s := by
  cases hdone : ctx.isDone start with
  | true =>
    rw [Visit.make_of_refused ((ctx.refused_visit start wait).trans hdone), ending, if_pos hdone]
    rfl
  | false =>
    rw [Visit.make_of_not_refused ((ctx.refused_visit start wait).trans hdone), ending_eq hdone]
    simp only [visit, List.find?_append]
    generalize hdue : wait.map (start + ·) = due
    cases hfirst : earlier due ctx.stop with
    | none =>
      have hopen : ctx.isCancelled start = false :=
        isCancelled_eq_false hdone fun s hs => le_stop hdone hs
      rw [find?_pollsAt_of_quiet hopen (by simp [hfirst])]
      rfl
    | some t =>
      have hstart : start ≤ t := by
        rcases earlier_eq_some hfirst with h | h
        · obtain ⟨d, -, rfl⟩ := Option.map_eq_some_iff.1 (hdue.trans h)
          exact Nat.le_add_right start d
        · exact le_stop hdone h
      have hopen : ctx.isCancelled t = false := by
        refine isCancelled_eq_false hdone fun s hs => ?_
        obtain ⟨t', ht', hle⟩ := exists_earlier_le (a := due) (.inr hs)
        cases hfirst.symm.trans ht'
        exact hle
      rw [Option.toList_some, List.flatMap_singleton, find?_visit hdone hstart hfirst]
      cases hready : due.any (· ≤ t) with
      | true =>
        simp only [find?_pollsAt_of_due hopen hready, hready, if_true]
        rfl
      | false =>
        have hstop : ctx.stop = some t := by
          rcases earlier_eq_some hfirst with h | h
          · simp [h] at hready
          · exact h
        obtain ⟨cancelled, hfind⟩ := find?_pollsAt_of_stop hopen hready hstop
        simp only [hfind, hready, Bool.false_eq_true, if_false]
        rw [Polled.outcome, Polled.settled, if_neg (by simp)]
        rfl

end Context

namespace Program

variable {α : Type} {w : World}

/-- One call beside a clock ends as it does by polls: with its answer, with the deadline, or with
nothing. -/
theorem make_slow_eq_visit (h : w.stores.groups.Named) (delay : Nat → StoreCall → Option Millis)
    (ctx : Context) (c : StoreCall) :
    (ctx.visit w.now (delay w.calls c)).make ctx.deadline (.call c.inPlace) w.stores =
      ((make (.slow delay) ctx c w).1, (make (.slow delay) ctx c w).2.stores) := by
  have hobstacle : (Conditions.slow delay).obstacle ctx w.calls w.now c =
    (ctx.ending none w.now (delay w.calls c)).obstacle none := rfl
  rw [Context.make_visit]
  cases hend : ctx.ending none w.now (delay w.calls c) with
  | finished t =>
    rw [hend] at hobstacle
    rw [Context.Ending.outcome, StoreCall.inPlace_eq h,
      make_of_free hobstacle (Fault.distort_faithful c)]
  | refused | cut _ | unanswered =>
    rw [hend] at hobstacle
    obtain ⟨hresult, hstores⟩ := make_of_obstacle hobstacle
    rw [hresult, hstores]
    rfl

/-- The polls of the calls that a run comes to. -/
def visits (delay : Nat → StoreCall → Option Millis) (ctx : Context) (p : Program α) (w : World) :
    List Visit :=
  (p.reached (.slow delay) ctx w).map fun r => ctx.visit r.moment (delay r.number r.call)

/-- A run beside a clock is the run by polls. -/
theorem perform_slow_eq_polled (h : w.stores.Sound) (delay : Nat → StoreCall → Option Millis)
    (ctx : Context) (p : Program α) : p.polled ctx.deadline (p.visits delay ctx w) w.stores =
      ((p.perform (.slow delay) ctx w).1, (p.perform (.slow delay) ctx w).2.stores) := by
  induction p generalizing w with
  | done r => rfl
  | call c next ih =>
    have hvisit := make_slow_eq_visit h.groups.toNamed delay ctx c
    have hsound : (make (.slow delay) ctx c w).2.stores.Sound := make_keeps (fun hs => hs.after c) h
    simp only [visits, reached, perform, List.map_cons, polled, hvisit]
    generalize make (.slow delay) ctx c w = out at hsound
    obtain ⟨_ | r, w'⟩ := out
    · rfl
    · exact ih r hsound

end Program
end AccessControl
