import AccessControl.Timed
import AccessControl.Proofs.Program.Runs

/-! # Faults and deadlines

What a schedule of faults and a context do to a run is known from the calls that the run makes when
nothing is in its way. The calls before the first obstacle are served as ever. A program that stops
at a failed call then ends with what stood in its way.
-/
namespace AccessControl

namespace Context

variable {ctx : Context} {horizon : Option Millis} {now t : Millis} {wait : Option Millis}

/-- A call finishes only if it was in time to start, and then at the end of its wait. -/
theorem finished_of_ending (h : ctx.ending horizon now wait = .finished t) :
    ctx.isDone now = false ∧ ∃ d, wait = some d ∧ t = now + d := by
  rw [ending] at h
  split at h
  · cases h
  · rename_i hdone
    refine ⟨by simpa using hdone, ?_⟩
    cases wait with
    | none =>
      cases hstop : ctx.stop with
      | none => simp [hstop] at h
      | some s =>
        simp only [hstop, Option.map_none] at h
        split at h <;> cases h
    | some d =>
      refine ⟨d, rfl, ?_⟩
      cases hstop : ctx.stop with
      | none =>
        simp only [hstop, Option.map_some] at h
        split at h <;> cases h
        rfl
      | some s =>
        simp only [hstop, Option.map_some] at h
        split at h <;> split at h <;> cases h
        rfl

theorem earlier_eq_some {a b : Option Millis} (h : earlier a b = some t) :
    a = some t ∨ b = some t := by
  cases a with
  | none => exact .inr h
  | some x =>
    cases b with
    | none => exact .inl h
    | some y =>
      cases h
      rcases Nat.le_total x y with hle | hle
      · exact .inl (congrArg some (Nat.min_eq_left hle).symm)
      · exact .inr (congrArg some (Nat.min_eq_right hle).symm)

theorem exists_earlier_le {a b : Option Millis} (h : a = some t ∨ b = some t) :
    ∃ s, earlier a b = some s ∧ s ≤ t := by
  rcases h with rfl | rfl
  · cases b with
    | none => exact ⟨t, rfl, Nat.le_refl t⟩
    | some y => exact ⟨_, rfl, Nat.min_le_left t y⟩
  · cases a with
    | none => exact ⟨t, rfl, Nat.le_refl t⟩
    | some x => exact ⟨_, rfl, Nat.min_le_right x t⟩

theorem isDone_eq_false_iff : ctx.isDone t = false ↔
    ctx.cancelled = false ∧ (∀ c, ctx.cancelAt = some c → t ≤ c) ∧
      ∀ d, ctx.deadline = some d → t < d := by
  simp [isDone, isCancelled, Option.any_eq_false, and_assoc]

theorem le_stop (h : ctx.isDone now = false) {s : Millis} (hs : ctx.stop = some s) : now ≤ s := by
  obtain ⟨-, hcancel, hdeadline⟩ := isDone_eq_false_iff.1 h
  rcases earlier_eq_some hs with hd | hc
  · exact Nat.le_of_lt (hdeadline s hd)
  · exact hcancel s hc

/-- The first thing that happens to a call ends it. -/
theorem ending_eq (hdone : ctx.isDone now = false) : ctx.ending none now wait =
    match earlier (wait.map (now + ·)) ctx.stop with
    | none => .unanswered
    | some t => if (wait.map (now + ·)).any (· ≤ t) then .finished t else .cut t := by
  have hcut : ∀ t, ctx.seenCut none t = true := fun t => by simp [seenCut, seen]
  rw [ending, if_neg (Bool.eq_false_iff.1 hdone)]
  cases wait with
  | none => cases ctx.stop <;> simp [earlier, hcut]
  | some d =>
    cases ctx.stop with
    | none => simp [earlier, seen]
    | some s =>
      by_cases hle : now + d ≤ s
      · simp [earlier, seen, hle]
      · simp [earlier, hcut, hle, Nat.min_eq_right (Nat.le_of_not_le hle)]

/-- While somebody watches, only a call that takes forever is never answered, and only when nothing
stops it. -/
theorem unanswered_of_ending (h : ctx.ending none now wait = .unanswered) :
    wait = none ∧ ctx.stop = none := by
  cases hdone : ctx.isDone now with
  | true =>
    rw [ending, if_pos hdone] at h
    cases h
  | false =>
    rw [ending_eq hdone] at h
    cases wait with
    | none =>
      cases hstop : ctx.stop with
      | none => exact ⟨rfl, rfl⟩
      | some s => simp [hstop, earlier] at h
    | some d =>
      cases hstop : ctx.stop <;> simp only [hstop, Option.map_some, earlier] at h <;>
        split at h <;> cases h

theorem ending_none_zero (h : ctx.isDone now = false) :
    ctx.ending none now (some 0) = .finished now := by
  rw [ending_eq h]
  cases hstop : ctx.stop with
  | none => simp [earlier]
  | some s => simp [earlier, Nat.min_eq_left (le_stop h hstop)]

end Context

inductive Obstacle where
  /-- The context is over before there is an answer. -/
  | late
  /-- There is never an answer. -/
  | silence
  | failure (e : AuthError)
  deriving DecidableEq, Repr

def Obstacle.answer {α : Type} : Obstacle → Option (Result α)
  | late => some (.error .deadlineExceeded)
  | silence => none
  | failure e => some (.error e)

def Context.Ending.obstacle (failure : Option AuthError) : Context.Ending → Option Obstacle
  | .refused | .cut _ => some .late
  | .unanswered => some .silence
  | .finished _ => failure.map .failure

namespace Context.Ending

variable {ending : Context.Ending} {failure : Option AuthError} {e : AuthError}

theorem obstacle_eq_none_iff :
    ending.obstacle failure = none ↔ failure = none ∧ ∃ t, ending = .finished t := by
  cases ending <;> simp [obstacle]

theorem obstacle_eq_silence_iff :
    ending.obstacle failure = some .silence ↔ ending = .unanswered := by
  cases ending <;> simp [obstacle]

theorem obstacle_eq_failure_iff :
    ending.obstacle failure = some (.failure e) ↔ failure = some e ∧ ∃ t, ending = .finished t := by
  cases ending <;> simp [obstacle]

end Context.Ending

def StoreCall.passesOver : StoreCall → AuthError → Bool
  | .ancestors _, .notFound _ => true
  | _, _ => false

/-- A fault that makes nothing up: it hands replies on as they are, and it never says that a group
is missing where a search would go on. -/
def Fault.Honest (f : Fault) (c : StoreCall) : Prop :=
  (∀ reply, Fault.distort f.distortion c reply = reply) ∧ ∀ e, f.failure = some e →
    c.passesOver e = false

theorem Fault.distort_faithful (c : StoreCall) (reply : c.Reply) :
    Fault.distort .faithful c reply = reply := by
  cases c <;> rfl

namespace Conditions

def obstacle (k : Conditions) (ctx : Context) (n : Nat) (now : Millis) (c : StoreCall) :
    Option Obstacle :=
  (ctx.ending k.horizon now (k.schedule n c).wait).obstacle (k.schedule n c).failure

/-- The first obstacle to calls in a row, with the calls that are served before it. -/
def blocked (k : Conditions) (ctx : Context) :
    Nat → Millis → List StoreCall → Option (List StoreCall × Obstacle)
  | _, _, [] => none
  | n, now, c :: rest =>
    match k.obstacle ctx n now c with
    | some o => some ([], o)
    | none =>
      (k.blocked ctx (n + 1) (now + (k.schedule n c).wait.getD 0) rest).map fun (served, o) =>
        (c :: served, o)

variable {k : Conditions} {ctx : Context} {n : Nat} {now : Millis} {c : StoreCall}
  {cs served : List StoreCall} {o : Obstacle}

theorem obstacle_eq_none (h : k.obstacle ctx n now c = none) :
    ∃ d, ctx.ending k.horizon now (k.schedule n c).wait = .finished (now + d) ∧
      (k.schedule n c).wait = some d ∧ (k.schedule n c).failure = none := by
  obtain ⟨hfail, t, hend⟩ := Context.Ending.obstacle_eq_none_iff.1 h
  obtain ⟨_, d, hwait, rfl⟩ := Context.finished_of_ending hend
  exact ⟨d, hend, hwait, hfail⟩

theorem failure_of_obstacle {e : AuthError} (h : k.obstacle ctx n now c = some (.failure e)) :
    (k.schedule n c).failure = some e := (Context.Ending.obstacle_eq_failure_iff.1 h).1

theorem unanswered_of_silence (h : k.obstacle ctx n now c = some .silence) :
    ctx.ending k.horizon now (k.schedule n c).wait = .unanswered :=
  Context.Ending.obstacle_eq_silence_iff.1 h

theorem blocked_cons_eq_none (h : k.blocked ctx n now (c :: cs) = none) :
    k.obstacle ctx n now c = none ∧
      k.blocked ctx (n + 1) (now + (k.schedule n c).wait.getD 0) cs = none := by
  unfold blocked at h
  cases ho : k.obstacle ctx n now c with
  | some o => rw [ho] at h; cases h
  | none =>
    rw [ho] at h
    exact ⟨rfl, Option.map_eq_none_iff.1 h⟩

/-- The first obstacle stands at the first call, or behind it once that is served. -/
theorem blocked_cons_eq_some (h : k.blocked ctx n now (c :: cs) = some (served, o)) :
    (served = [] ∧ k.obstacle ctx n now c = some o) ∨
    ∃ rest, served = c :: rest ∧ k.obstacle ctx n now c = none ∧
      k.blocked ctx (n + 1) (now + (k.schedule n c).wait.getD 0) cs = some (rest, o) := by
  unfold blocked at h
  cases ho : k.obstacle ctx n now c with
  | some o' =>
    rw [ho] at h
    cases h
    exact Or.inl ⟨rfl, rfl⟩
  | none =>
    rw [ho] at h
    obtain ⟨⟨rest, o'⟩, hrest, he⟩ := Option.map_eq_some_iff.1 h
    cases he
    exact Or.inr ⟨rest, rfl, rfl, hrest⟩

/-- The obstacle is one to a call in the row, and those served come before it. -/
theorem split_of_blocked (h : k.blocked ctx n now cs = some (served, o)) :
    ∃ c rest, cs = served ++ c :: rest ∧ ∃ m t, k.obstacle ctx m t c = some o := by
  induction cs generalizing n now served with
  | nil => cases h
  | cons c cs ih =>
    rcases blocked_cons_eq_some h with ⟨rfl, ho⟩ | ⟨before, rfl, _, hrest⟩
    · exact ⟨c, cs, rfl, n, now, ho⟩
    · obtain ⟨d, rest, rfl, hd⟩ := ih hrest
      exact ⟨d, rest, rfl, hd⟩

/-- While somebody watches, a call ends when the context ends some day or no call takes forever. -/
theorem obstacle_ne_silence (hhorizon : k.horizon = none)
    (hends : ctx.stop ≠ none ∨ ∀ n c, (k.schedule n c).wait ≠ none) :
    k.obstacle ctx n now c ≠ some .silence := by
  intro ho
  have hend := unanswered_of_silence ho
  rw [hhorizon] at hend
  obtain ⟨hwait, hstop⟩ := Context.unanswered_of_ending hend
  rcases hends with hends | hends
  · exact hends hstop
  · exact hends n c hwait

theorem answer_ne_none (hhorizon : k.horizon = none) (h : k.blocked ctx n now cs = some (served, o))
    (hends : ctx.stop ≠ none ∨ ∀ n c, (k.schedule n c).wait ≠ none) {α : Type} :
    o.answer ≠ (none : Option (Result α)) := by
  cases o with
  | late => exact nofun
  | failure e => exact nofun
  | silence =>
    obtain ⟨c, _, _, m, t, ho⟩ := split_of_blocked h
    exact absurd ho (obstacle_ne_silence hhorizon hends)

theorem obstacle_calm (h : ctx.isDone now = false) (n : Nat) (c : StoreCall) :
    calm.obstacle ctx n now c = none := by
  have hend : ctx.ending calm.horizon now (calm.schedule n c).wait = .finished now :=
    Context.ending_none_zero h
  rw [obstacle, hend]
  rfl

theorem blocked_calm (h : ctx.isDone now = false) (n : Nat) (cs : List StoreCall) :
    calm.blocked ctx n now cs = none := by
  induction cs generalizing n with
  | nil => rfl
  | cons c cs ih =>
    rw [blocked, obstacle_calm h]
    exact Option.map_eq_none_iff.2 (ih (n + 1))

theorem honest_calm (n : Nat) (c : StoreCall) : (calm.schedule n c).Honest c :=
  ⟨Fault.distort_faithful c, nofun⟩

end Conditions

namespace Program

variable {α β : Type} {k : Conditions} {ctx : Context} {w : World} {c : StoreCall} {p : Program α}
  {served : List StoreCall} {o : Obstacle}

/-- What stands in the way of a call is answered at a time that does not depend on the stores, and
they stay as they are. -/
theorem exists_make_of_obstacle (h : k.obstacle ctx w.calls w.now c = some o) :
    ∃ t n, ∀ st, make k ctx c { w with stores := st } = (o.answer, ⟨st, t, n⟩) := by
  have hstarted :
      ∀ st, (if ctx.isDone w.now then ⟨st, w.now, w.calls⟩ else ⟨st, w.now, w.calls + 1⟩ : World) =
      ⟨st, w.now, if ctx.isDone w.now then w.calls else w.calls + 1⟩ := by
    intro st
    split <;> rfl
  rw [Conditions.obstacle] at h
  simp only [make, hstarted, Timed.after]
  cases hend : ctx.ending k.horizon w.now (k.schedule w.calls c).wait with
  | refused =>
    rw [hend] at h
    cases h
    exact ⟨_, _, fun _ => rfl⟩
  | cut t =>
    rw [hend] at h
    cases h
    exact ⟨_, _, fun _ => rfl⟩
  | unanswered =>
    rw [hend] at h
    cases h
    exact ⟨_, _, fun _ => rfl⟩
  | finished t =>
    rw [hend] at h
    obtain ⟨e, he, rfl⟩ := Option.map_eq_some_iff.1 h
    simp only [World.serve, he]
    exact ⟨_, _, fun _ => rfl⟩

theorem make_of_obstacle (h : k.obstacle ctx w.calls w.now c = some o) :
    (make k ctx c w).1 = o.answer ∧ (make k ctx c w).2.stores = w.stores := by
  obtain ⟨t, n, hmake⟩ := exists_make_of_obstacle h
  have hw : make k ctx c w = (o.answer, ⟨w.stores, t, n⟩) := hmake w.stores
  rw [hw]
  exact ⟨rfl, rfl⟩

theorem serve_of_no_failure {f : Fault} (hf : f.failure = none) :
    w.serve c f =
      ((w.stores.reply c).map (Fault.distort f.distortion c),
      { w with stores := w.stores.after c }) := by
  simp only [World.serve, hf, Stores.reply, Stores.after]
  cases w.stores.serve c <;> rfl

/-- A call in whose way nothing stands is served. -/
theorem make_of_no_obstacle (h : k.obstacle ctx w.calls w.now c = none) :
    make k ctx c w =
      (some ((w.stores.reply c).map (Fault.distort (k.schedule w.calls c).distortion c)),
      ⟨w.stores.after c, w.now + (k.schedule w.calls c).wait.getD 0, w.calls + 1⟩) := by
  obtain ⟨d, hend, hwait, hfail⟩ := Conditions.obstacle_eq_none h
  have hdone := (Context.finished_of_ending hend).1
  simp only [make, hdone, Bool.false_eq_true, if_false, Timed.after, hend]
  rw [serve_of_no_failure hfail, hwait]
  rfl

theorem make_of_free (h : k.obstacle ctx w.calls w.now c = none)
    (hd : ∀ reply, Fault.distort (k.schedule w.calls c).distortion c reply = reply) :
    make k ctx c w = (some (w.stores.reply c),
      ⟨w.stores.after c, w.now + (k.schedule w.calls c).wait.getD 0, w.calls + 1⟩) := by
  have hsame : (w.stores.reply c).map (Fault.distort (k.schedule w.calls c).distortion c) =
      w.stores.reply c := by
    cases w.stores.reply c with
    | error e => rfl
    | ok reply => exact congrArg Except.ok (hd reply)
  rw [make_of_no_obstacle h, hsame]

/-- A call is served or it leaves no trace. Whatever it meets, its answer is no success when it is
not served. -/
theorem make_cases (k : Conditions) (ctx : Context) (c : StoreCall) (w : World) :
    ((make k ctx c w).2.stores = w.stores ∧ ∀ reply, (make k ctx c w).1 ≠ some (.ok reply)) ∨
    ∃ reply st, w.stores.serve c = .ok (reply, st) ∧ (make k ctx c w).2.stores = st ∧
      (make k ctx c w).1 =
        some (.ok (Fault.distort (k.schedule w.calls c).distortion c reply)) := by
  cases ho : k.obstacle ctx w.calls w.now c with
  | some o =>
    obtain ⟨hresult, hstores⟩ := make_of_obstacle ho
    refine .inl ⟨hstores, fun reply hreply => ?_⟩
    cases o <;> cases hresult.symm.trans hreply
  | none =>
    rw [make_of_no_obstacle ho, Stores.reply, Stores.after]
    cases hserve : w.stores.serve c with
    | error e =>
      refine .inl ⟨rfl, fun reply hreply => ?_⟩
      cases hreply
    | ok served => exact .inr ⟨_, _, rfl, rfl, rfl⟩

theorem perform_ask (k : Conditions) (ctx : Context) (c : StoreCall) (w : World) :
    (ask c).perform k ctx w = make k ctx c w := by
  simp only [ask, perform]
  generalize make k ctx c w = out
  obtain ⟨_ | r, w'⟩ := out <;> rfl

/-- A program that asks first goes on once it is served, or it fails and leaves no trace. -/
theorem perform_ask_cases (k : Conditions) (ctx : Context) (c : StoreCall) (f : c.Reply → Program α)
    (w : World) :
    (((ask c >>= f).perform k ctx w).2.stores = w.stores ∧
      ∀ a, ((ask c >>= f).perform k ctx w).1 ≠ some (.ok a)) ∨
    ∃ reply w', w.stores.serve c = .ok (reply, w'.stores) ∧
      (ask c >>= f).perform k ctx w =
        (f (Fault.distort (k.schedule w.calls c).distortion c reply)).perform k ctx w' := by
  have hask : ask c >>= f = call c fun r => (done r).bind f := rfl
  have hmake := make_cases k ctx c w
  simp only [hask, perform]
  generalize make k ctx c w = out at hmake
  obtain ⟨answer, w'⟩ := out
  rcases hmake with ⟨hstores, hfailed⟩ | ⟨reply, st, hserve, rfl, ⟨⟩⟩
  · rcases answer with _ | (e | reply)
    · exact .inl ⟨hstores, nofun⟩
    · exact .inl ⟨hstores, nofun⟩
    · exact absurd rfl (hfailed reply)
  · exact .inr ⟨reply, w', hserve, rfl⟩

/-- A run in whose way nothing stands is the run of the stores. -/
theorem perform_of_free (hk : ∀ n, ∀ c ∈ p.calls w.stores, (k.schedule n c).Honest c)
    (h : k.blocked ctx w.calls w.now (p.calls w.stores) = none) :
    (p.perform k ctx w).1 = some (p.run w.stores).1 ∧
      (p.perform k ctx w).2.stores = (p.run w.stores).2 := by
  induction p generalizing w with
  | done r => exact ⟨rfl, rfl⟩
  | call c next ih =>
    obtain ⟨hfree, hrest⟩ := Conditions.blocked_cons_eq_none h
    have hmake := make_of_free hfree (hk w.calls c (List.mem_cons_self ..)).1
    simp only [perform, hmake, run_call]
    exact ih _ (fun n d hd => hk n d (List.mem_cons_of_mem _ hd)) hrest

theorem perform_calm (h : ctx.isDone w.now = false) (p : Program α) :
    (p.perform .calm ctx w).1 = some (p.run w.stores).1 ∧
      (p.perform .calm ctx w).2.stores = (p.run w.stores).2 :=
  perform_of_free (fun n c _ => Conditions.honest_calm n c) (Conditions.blocked_calm h _ _)

theorem perform_background (p : Program α) (w : World) :
    (p.perform .calm .background w).1 = some (p.run w.stores).1 := (perform_calm rfl p).1

/-- A context that is over refuses every call. -/
theorem perform_of_done (h : ctx.isDone w.now = true) (p : Program α) :
    p.perform k ctx w = (some (p.answer fun _ => .error .deadlineExceeded), w) := by
  induction p with
  | done r => rfl
  | call c next ih =>
    have hmake : make k ctx c w = (some (.error .deadlineExceeded), w) := by
      simp only [make, h, if_true, Timed.after, Context.ending]
    simp only [perform, hmake]
    exact ih _

/-- Without faults a program is run, unless its context is over. -/
theorem perform_calm_cases (ctx : Context) (w : World) (p : Program α) :
    ((p.perform .calm ctx w).1 = some (p.run w.stores).1 ∧
      (p.perform .calm ctx w).2.stores = (p.run w.stores).2) ∨
      p.perform .calm ctx w = (some (p.answer fun _ => .error .deadlineExceeded), w) := by
  cases h : ctx.isDone w.now with
  | false => exact .inl (perform_calm h p)
  | true => exact .inr (perform_of_done h p)

/-- A program of one call, whose outcome is that of the call. -/
theorem perform_call_cases (c : StoreCall) (next : Result c.Reply → Program α) (f : c.Reply → α)
    (herror : ∀ e, next (.error e) = .done (.error e)) (hok : ∀ r, next (.ok r) = .done (.ok (f r)))
    (ctx : Context) (w : World) :
    let out := (call c next).perform .calm ctx w
    (∃ e, out.1 = some (.error e) ∧ out.2.stores = w.stores) ∨
    ∃ r st, w.stores.serve c = .ok (r, st) ∧ out.1 = some (.ok (f r)) ∧ out.2.stores = st := by
  rcases perform_calm_cases ctx w (call c next) with ⟨hresult, hstores⟩ | hrefused
  · rw [run] at hresult hstores
    cases hserve : w.stores.serve c with
    | error e =>
      rw [hserve] at hresult hstores
      simp only [herror] at hresult hstores
      exact .inl ⟨e, hresult, hstores⟩
    | ok served =>
      rw [hserve] at hresult hstores
      simp only [hok] at hresult hstores
      exact .inr ⟨_, _, rfl, hresult, hstores⟩
  · rw [answer, herror] at hrefused
    exact .inl ⟨_, congrArg Prod.fst hrefused, by rw [hrefused]⟩

inductive Strict (made : StoreCall → Prop) : Program α → Prop
  | done (r : Result α) : Strict made (.done r)
  | call {c : StoreCall} {next : Result c.Reply → Program α} (hmade : made c)
    (hfail : ∀ e, c.passesOver e = false → next (.error e) = .done (.error e))
    (hnext : ∀ r, Strict made (next r)) : Strict made (.call c next)

variable {made : StoreCall → Prop}

theorem Strict.bind {f : α → Program β} (h : p.Strict made) (hf : ∀ a, (f a).Strict made) :
    (p >>= f).Strict made := by
  induction h with
  | done r =>
    cases r with
    | ok a => exact hf a
    | error e => exact .done _
  | call hmade hfail _ ih =>
    refine .call hmade ?_ ih
    intro e he
    rw [hfail e he]
    rfl

theorem Strict.ask (hmade : made c) : (Program.ask c).Strict made :=
  .call hmade (fun _ _ => rfl) .done

theorem Strict.made_of_mem {s : Stores} (h : p.Strict made) (hc : c ∈ p.calls s) : made c := by
  induction h generalizing s with
  | done r => cases hc
  | call hmade _ _ ih =>
    rcases List.mem_cons.1 hc with rfl | hc
    · exact hmade
    · exact ih _ hc

/-- A program that gives up at the failures of a call stops at the obstacle, before any store is
changed. -/
theorem perform_of_obstacle {next : Result c.Reply → Program α}
    (hfail : ∀ e, c.passesOver e = false → next (.error e) = .done (.error e))
    (hhonest : (k.schedule w.calls c).Honest c) (ho : k.obstacle ctx w.calls w.now c = some o) :
    ((call c next).perform k ctx w).1 = o.answer ∧
      ((call c next).perform k ctx w).2.stores = w.stores := by
  have hmake := make_of_obstacle ho
  simp only [perform]
  generalize make k ctx c w = r at hmake
  obtain ⟨result, w'⟩ := r
  obtain ⟨hresult, hstores⟩ := hmake
  cases o with
  | late =>
    have hstop : next (.error .deadlineExceeded) = .done (.error .deadlineExceeded) :=
      hfail _ (by cases c <;> rfl)
    cases hresult
    simp only [hstop]
    exact ⟨rfl, hstores⟩
  | silence =>
    cases hresult
    exact ⟨rfl, hstores⟩
  | failure e =>
    have hstop : next (.error e) = .done (.error e) :=
      hfail e (hhonest.2 e (Conditions.failure_of_obstacle ho))
    cases hresult
    simp only [hstop]
    exact ⟨rfl, hstores⟩

/-- A run that meets an obstacle ends there, and leaves the stores as the calls before it leave
them. -/
theorem Strict.perform_of_blocked (h : p.Strict made)
    (hk : ∀ n, ∀ c ∈ p.calls w.stores, (k.schedule n c).Honest c)
    (hblocked : k.blocked ctx w.calls w.now (p.calls w.stores) = some (served, o)) :
    (p.perform k ctx w).1 = o.answer ∧ (p.perform k ctx w).2.stores = w.stores.afterAll served := by
  induction h generalizing w served with
  | done r => cases hblocked
  | @call c next _ hfail _ ih =>
    have hhonest := hk w.calls c (List.mem_cons_self ..)
    rcases Conditions.blocked_cons_eq_some hblocked with ⟨rfl, ho⟩ | ⟨rest, rfl, hfree, hrest⟩
    · exact perform_of_obstacle hfail hhonest ho
    · have hmake := make_of_free hfree hhonest.1
      simp only [perform, hmake]
      exact ih _ (fun n d hd => hk n d (List.mem_cons_of_mem _ hd)) hrest

end Program
end AccessControl
