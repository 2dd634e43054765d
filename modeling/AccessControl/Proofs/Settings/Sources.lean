import AccessControl.Settings
import Mathlib.Data.List.Basic

/-! # Settings from many sources

Sources are loaded by precedence, and those of one precedence in the order of the list. The first
that fails ends the loading. When none fails each field is settled apart from the others, by the
last source that sets it, and it does not matter in which order sources of different precedence were
listed.
-/
namespace AccessControl

namespace SettingsLayer

variable {α β : Type} {f : SettingsLayer → Option α}

def secret (l : SettingsLayer) : Option Secret := l.tokens.bind (·.secret)

def userLifetime (l : SettingsLayer) : Option Nat := l.tokens.bind (·.userLifetime)

def recoveryLifetime (l : SettingsLayer) : Option Nat := l.tokens.bind (·.recoveryLifetime)

def apiLifetime (l : SettingsLayer) : Option Nat := l.tokens.bind (·.apiLifetime)

def timeout (l : SettingsLayer) : Option Nat := l.decisions.bind (·.timeout)

def level (l : SettingsLayer) : Option String := l.logging.bind (·.level)

def json (l : SettingsLayer) : Option Bool := l.logging.bind (·.json)

def TakesUpper (f : SettingsLayer → Option α) : Prop := ∀ a b, f (a.merge b) = (f b).or (f a)

theorem bind_overWith {m : α → α → α} {g : α → Option β} (hg : ∀ a b, g (m a b) = (g b).or (g a))
    (a b : Option α) : (overWith m a b).bind g = (b.bind g).or (a.bind g) := by
  cases a with
  | none => cases b <;> simp [overWith]
  | some a =>
    cases b with
    | none => simp [overWith]
    | some b => exact hg a b

theorem takesUpper_secret : TakesUpper secret :=
  fun a b => bind_overWith (fun _ _ => rfl) a.tokens b.tokens

theorem takesUpper_userLifetime : TakesUpper userLifetime :=
  fun a b => bind_overWith (fun _ _ => rfl) a.tokens b.tokens

theorem takesUpper_recoveryLifetime : TakesUpper recoveryLifetime :=
  fun a b => bind_overWith (fun _ _ => rfl) a.tokens b.tokens

theorem takesUpper_apiLifetime : TakesUpper apiLifetime :=
  fun a b => bind_overWith (fun _ _ => rfl) a.tokens b.tokens

theorem takesUpper_timeout : TakesUpper timeout :=
  fun a b => bind_overWith (fun _ _ => rfl) a.decisions b.decisions

theorem takesUpper_level : TakesUpper level :=
  fun a b => bind_overWith (fun _ _ => rfl) a.logging b.logging

theorem takesUpper_json : TakesUpper json :=
  fun a b => bind_overWith (fun _ _ => rfl) a.logging b.logging

/-- The value of the last layer that sets a field. -/
def lastSet (f : SettingsLayer → Option α) (layers : List SettingsLayer) : Option α :=
  (layers.filterMap f).getLast?

theorem lastSet_cons (f : SettingsLayer → Option α) (l : SettingsLayer)
    (rest : List SettingsLayer) :
    lastSet f (l :: rest) = (lastSet f rest).or (f l) := by
  cases hl : f l with
  | none => simp [lastSet, hl]
  | some v =>
    cases hrest : (rest.filterMap f).getLast? <;> simp [lastSet, hl, List.getLast?_cons, hrest]

theorem TakesUpper.foldl_merge (hf : TakesUpper f) (done : SettingsLayer)
    (layers : List SettingsLayer) :
    f (layers.foldl merge done) = (lastSet f layers).or (f done) := by
  induction layers generalizing done with
  | nil => rfl
  | cons l rest ih => rw [List.foldl_cons, ih, hf, lastSet_cons, Option.or_assoc]

theorem TakesUpper.merged (hf : TakesUpper f) (hempty : f .empty = none)
    (layers : List SettingsLayer) :
    f (layers.foldl merge .empty) = lastSet f layers := by
  rw [hf.foldl_merge, hempty, Option.or_none]

end SettingsLayer

namespace Settings
open SettingsLayer (lastSet)

variable {e : Environment} {sources : List Source} {layers : List SettingsLayer}
  {done : SettingsLayer} {err : SettingsError}

/-- The sources of the lowest precedence, then those of the next one, each time as they are
listed. -/
def byPrecedence (sources : List Source) : List Source :=
  [Precedence.defaults, .file, .environment].flatMap fun p => sources.filter (·.precedence = p)

theorem rank_trans (a b c : Source) (hab : decide (a.precedence.rank ≤ b.precedence.rank) = true)
    (hbc : decide (b.precedence.rank ≤ c.precedence.rank) = true) :
    decide (a.precedence.rank ≤ c.precedence.rank) = true := by
  rw [decide_eq_true_eq] at hab hbc ⊢
  exact Nat.le_trans hab hbc

theorem rank_total (a b : Source) :
    (decide (a.precedence.rank ≤ b.precedence.rank) ||
      decide (b.precedence.rank ≤ a.precedence.rank)) = true := by
  rw [Bool.or_eq_true, decide_eq_true_eq, decide_eq_true_eq]
  exact Nat.le_total _ _

/-- Sources of one precedence keep their order. -/
theorem filter_inOrder (sources : List Source) (p : Precedence) :
    (inOrder sources).filter (·.precedence = p) = sources.filter (·.precedence = p) := by
  have hsame : (sources.filter (·.precedence = p)).Pairwise fun a b =>
      decide (a.precedence.rank ≤ b.precedence.rank) = true := by
    refine List.pairwise_of_forall_mem_list fun a ha b hb => ?_
    simp only [List.mem_filter, decide_eq_true_eq] at ha hb
    rw [ha.2, hb.2]
    exact decide_eq_true (Nat.le_refl _)
  -- a stable sort leaves what is in order already as a sublist, and by its length that is all there
  -- is of it
  have hsub : (sources.filter (·.precedence = p)).Sublist (inOrder sources) :=
    List.sublist_mergeSort rank_trans rank_total hsame List.filter_sublist
  have hperm :=
    (List.mergeSort_perm sources fun a b => a.precedence.rank ≤ b.precedence.rank).filter
    (·.precedence = p)
  have hsub' := hsub.filter (·.precedence = p)
  rw [List.filter_filter] at hsub'
  simp only [Bool.and_self] at hsub'
  exact (hsub'.eq_of_length hperm.length_eq.symm).symm

/-- A list in order is made of its sources of each precedence, one after another. -/
theorem eq_byPrecedence_of_pairwise
    (h : sources.Pairwise fun a b => a.precedence.rank ≤ b.precedence.rank) :
    sources = byPrecedence sources := by
  induction sources with
  | nil => rfl
  | cons s rest ih =>
    obtain ⟨hhead, hrest⟩ := List.pairwise_cons.1 h
    have hnone : ∀ p : Precedence, p.rank < s.precedence.rank →
        rest.filter (·.precedence = p) = [] := by
      intro p hp
      refine List.filter_eq_nil_iff.2 fun b hb hbp => ?_
      rw [decide_eq_true_eq] at hbp
      have hle := hhead b hb
      rw [hbp] at hle
      omega
    have hsplit := ih hrest
    simp only [byPrecedence, List.flatMap_cons, List.flatMap_nil, List.append_nil] at hsplit ⊢
    cases hs : s.precedence with
    | defaults => simp [hs, ← hsplit]
    | file =>
      have hdefaults := hnone .defaults (by rw [hs]; decide)
      rw [hdefaults, List.nil_append] at hsplit
      simp [hs, hdefaults, ← hsplit]
    | environment =>
      have hdefaults := hnone .defaults (by rw [hs]; decide)
      have hfile := hnone .file (by rw [hs]; decide)
      rw [hdefaults, hfile, List.nil_append, List.nil_append] at hsplit
      simp [hs, hdefaults, hfile, ← hsplit]

theorem byPrecedence_congr {sources' : List Source}
    (h : ∀ p, sources'.filter (·.precedence = p) = sources.filter (·.precedence = p)) :
    byPrecedence sources' = byPrecedence sources := by
  simp only [byPrecedence, h]

theorem inOrder_eq (sources : List Source) : inOrder sources = byPrecedence sources := by
  have hsorted : (inOrder sources).Pairwise fun a b => a.precedence.rank ≤ b.precedence.rank :=
    (List.pairwise_mergeSort rank_trans rank_total sources).imp of_decide_eq_true
  rw [eq_byPrecedence_of_pairwise hsorted]
  exact byPrecedence_congr (filter_inOrder sources)

/-- The sources up to one that fails are loaded, and it fails. -/
def FailsFirst (e : Environment) (sources : List Source) (err : SettingsError) : Prop :=
  ∃ before failed after, sources = before ++ failed :: after ∧
    (∀ s ∈ before, ∃ layer, s.load e = .ok layer) ∧ failed.load e = .error err

theorem failsFirst_or_loads (e : Environment) (sources : List Source) :
    (∃ err, FailsFirst e sources err) ∨
      ∃ layers : List SettingsLayer, sources.map (·.load e) = layers.map .ok := by
  induction sources with
  | nil => exact .inr ⟨[], rfl⟩
  | cons s rest ih =>
    cases hs : s.load e with
    | error err => exact .inl ⟨err, [], s, rest, rfl, nofun, hs⟩
    | ok layer =>
      rcases ih with ⟨err, before, failed, after, rfl, hbefore, hfailed⟩ | ⟨layers, hlayers⟩
      · exact .inl ⟨err, s :: before, failed, after, rfl,
          List.forall_mem_cons.2 ⟨⟨layer, hs⟩, hbefore⟩, hfailed⟩
      · exact .inr ⟨layer :: layers, by rw [List.map_cons, hs, hlayers, List.map_cons]⟩

theorem FailsFirst.mergeSources_eq (h : FailsFirst e sources err) (done : SettingsLayer) :
    mergeSources e done sources = .error err := by
  obtain ⟨before, failed, after, rfl, hbefore, hfailed⟩ := h
  induction before generalizing done with
  | nil =>
    rw [List.nil_append, mergeSources, hfailed]
    rfl
  | cons s before ih =>
    obtain ⟨⟨layer, hs⟩, hbefore⟩ := List.forall_mem_cons.1 hbefore
    rw [List.cons_append, mergeSources, hs]
    exact ih (done.merge layer) hbefore

/-- When all sources can be loaded, the layers are merged one over the other. -/
theorem mergeSources_of_loads (h : sources.map (·.load e) = layers.map .ok) (done : SettingsLayer) :
    mergeSources e done sources = .ok (layers.foldl SettingsLayer.merge done) := by
  induction sources generalizing done layers with
  | nil =>
    rw [List.map_nil, eq_comm, List.map_eq_nil_iff] at h
    rw [h]
    rfl
  | cons s rest ih =>
    cases layers with
    | nil => cases h
    | cons layer layers =>
      obtain ⟨hs, hrest⟩ := List.cons.inj h
      rw [mergeSources, show s.load e = .ok layer from hs]
      exact ih hrest (done.merge layer)

/-- Every field as the last layer sets it that sets it at all, or as it is built in. -/
def resolved (layers : List SettingsLayer) : Settings where
  tokens :=
    { secret := lastSet SettingsLayer.secret layers
      userLifetime := (lastSet SettingsLayer.userLifetime layers).getD 36000
      recoveryLifetime := (lastSet SettingsLayer.recoveryLifetime layers).getD 300
      apiLifetime := lastSet SettingsLayer.apiLifetime layers }
  decisionTimeout := (lastSet SettingsLayer.timeout layers).getD 5000
  logging :=
    { level := (lastSet SettingsLayer.level layers).getD "info"
      json := (lastSet SettingsLayer.json layers).getD false }

theorem complete_eq (l : SettingsLayer) : complete l =
    ⟨⟨l.secret, l.userLifetime.getD 36000, l.recoveryLifetime.getD 300, l.apiLifetime⟩,
      l.timeout.getD 5000, ⟨l.level.getD "info", l.json.getD false⟩⟩ := by
  obtain ⟨tokens, decisions, logging⟩ := l
  cases tokens <;> cases decisions <;> cases logging <;> rfl

theorem complete_merged (layers : List SettingsLayer) :
    complete (layers.foldl SettingsLayer.merge .empty) = resolved layers := by
  rw [complete_eq, SettingsLayer.takesUpper_secret.merged rfl,
    SettingsLayer.takesUpper_userLifetime.merged rfl,
    SettingsLayer.takesUpper_recoveryLifetime.merged rfl,
    SettingsLayer.takesUpper_apiLifetime.merged rfl, SettingsLayer.takesUpper_timeout.merged rfl,
    SettingsLayer.takesUpper_level.merged rfl,
    SettingsLayer.takesUpper_json.merged rfl, resolved]

def IsLifetime (n : Nat) : Prop := 1 ≤ n ∧ n ≤ greatestLifetime

structure Acceptable (s : Settings) : Prop where
  secret : ∀ secret, s.tokens.secret = some secret → secret.isBlank = false
  userLifetime : IsLifetime s.tokens.userLifetime
  recoveryLifetime : IsLifetime s.tokens.recoveryLifetime
  apiLifetime : ∀ n, s.tokens.apiLifetime = some n → IsLifetime n
  decisionTimeout : 0 < s.decisionTimeout

def Checks (check : Except SettingsError Unit) (P : Prop) : Prop :=
  P ∧ check = .ok () ∨ ¬P ∧ ∃ reason, check = .error (.invalid reason)

theorem Checks.congr {check : Except SettingsError Unit} {P Q : Prop} (h : Checks check P)
    (hiff : P ↔ Q) :
    Checks check Q := by
  rwa [hiff] at h

theorem Checks.andThen {first second : Except SettingsError Unit} {P Q : Prop} (h : Checks first P)
    (h' : Checks second Q) : Checks (first >>= fun _ => second) (P ∧ Q) := by
  rcases h with ⟨hp, rfl⟩ | ⟨hp, reason, rfl⟩
  · rcases h' with ⟨hq, rfl⟩ | ⟨hq, reason, rfl⟩
    · exact .inl ⟨⟨hp, hq⟩, rfl⟩
    · exact .inr ⟨fun h => hq h.2, reason, rfl⟩
  · exact .inr ⟨fun h => hp h.1, reason, rfl⟩

theorem Checks.guard {c : Prop} [Decidable c] {reason : String} {rest : Except SettingsError Unit}
    {Q : Prop} (h : Checks rest Q) :
    Checks (if c then .error (.invalid reason) else rest) (¬c ∧ Q) := by
  by_cases hc : c
  · exact .inr ⟨fun h => h.1 hc, reason, if_pos hc⟩
  · rw [if_neg hc]
    exact h.congr (and_iff_right hc).symm

theorem checks_pass : Checks (.ok ()) True := .inl ⟨trivial, rfl⟩

theorem checks_checkLifetime (name : String) (n : Option Nat) :
    Checks (checkLifetime name n) (∀ m, n = some m → IsLifetime m) := by
  cases n with
  | none => exact checks_pass.congr ⟨fun _ => nofun, fun _ => trivial⟩
  | some n =>
    refine (checks_pass.guard.guard).congr ?_
    simp only [Option.some.injEq, forall_eq', IsLifetime, and_true]
    omega

/-- The check passes acceptable settings and calls all others invalid. -/
theorem checks_check (s : Settings) : Checks (check s) (Acceptable s) := by
  have hall : Checks (check s) (¬s.tokens.secret.any Secret.isBlank = true ∧
      (∀ n, some s.tokens.userLifetime = some n → IsLifetime n) ∧
      (∀ n, some s.tokens.recoveryLifetime = some n → IsLifetime n) ∧
      (∀ n, s.tokens.apiLifetime = some n → IsLifetime n) ∧ ¬s.decisionTimeout = 0 ∧ True) := by
    unfold check
    refine Checks.guard ?_
    refine (checks_checkLifetime _ _).andThen ((checks_checkLifetime _ _).andThen ?_)
    exact (checks_checkLifetime _ _).andThen checks_pass.guard
  refine hall.congr ?_
  simp only [Option.some.injEq, forall_eq', ← Nat.pos_iff_ne_zero, ← ne_eq, and_true]
  constructor
  · rintro ⟨hsecret, huser, hrecovery, hapi, htimeout⟩
    refine ⟨fun secret hs => ?_, huser, hrecovery, hapi, htimeout⟩
    simpa [hs] using hsecret
  · rintro ⟨hsecret, huser, hrecovery, hapi, htimeout⟩
    refine ⟨?_, huser, hrecovery, hapi, htimeout⟩
    cases hs : s.tokens.secret with
    | none => exact nofun
    | some secret => simp [hsecret secret hs]

theorem ofSources_eq (e : Environment) (sources : List Source) : ofSources e sources =
    mergeSources e .empty (byPrecedence sources) >>= fun l => check (complete l) >>= fun _ =>
      .ok (complete l) := by
  rw [← inOrder_eq]
  rfl

theorem ofSources_of_failsFirst (h : FailsFirst e (byPrecedence sources) err) :
    ofSources e sources = .error err := by
  rw [ofSources_eq, h.mergeSources_eq]
  rfl

theorem ofSources_of_loads (h : (byPrecedence sources).map (·.load e) = layers.map .ok) :
    ofSources e sources = check (resolved layers) >>= fun _ => .ok (resolved layers) := by
  rw [ofSources_eq, mergeSources_of_loads h, ← complete_merged]
  rfl

theorem acceptable_of_ofSources {s : Settings} (h : ofSources e sources = .ok s) :
    Acceptable s := by
  rcases failsFirst_or_loads e (byPrecedence sources) with ⟨err, hfails⟩ | ⟨layers, hlayers⟩
  · rw [ofSources_of_failsFirst hfails] at h
    cases h
  · rw [ofSources_of_loads hlayers] at h
    rcases checks_check (resolved layers) with ⟨hacceptable, hcheck⟩ | ⟨-, reason, hcheck⟩
    · rw [hcheck] at h
      cases h
      exact hacceptable
    · rw [hcheck] at h
      cases h

/-- The first source by precedence that fails is what the result tells. When none fails the result
is every field as the last source sets it that sets it, or as it is built in, provided that this is
acceptable. Only the order among sources of one precedence matters. -/
theorem ofSources_resolves (e : Environment) (sources : List Source) :
    ((∃ err, FailsFirst e (byPrecedence sources) err ∧ ofSources e sources = .error err) ∨
      ∃ layers : List SettingsLayer, (byPrecedence sources).map (·.load e) = layers.map .ok ∧
        (∀ s, ofSources e sources = .ok s ↔ Acceptable (resolved layers) ∧ s = resolved layers) ∧
        (¬Acceptable (resolved layers) →
          ∃ reason, ofSources e sources = .error (.invalid reason))) ∧
    ∀ sources', (∀ p, sources'.filter (·.precedence = p) = sources.filter (·.precedence = p)) →
      ofSources e sources' = ofSources e sources := by
  constructor
  · rcases failsFirst_or_loads e (byPrecedence sources) with ⟨err, hfails⟩ | ⟨layers, hlayers⟩
    · exact .inl ⟨err, hfails, ofSources_of_failsFirst hfails⟩
    · refine .inr ⟨layers, hlayers, ?_⟩
      rw [ofSources_of_loads hlayers]
      rcases checks_check (resolved layers) with ⟨hacceptable, hcheck⟩ | ⟨hnot, reason, hcheck⟩
      · rw [hcheck]
        refine ⟨fun s => ?_, fun hnot => absurd hacceptable hnot⟩
        show Except.ok (resolved layers) = Except.ok s ↔ _
        rw [Except.ok.injEq, eq_comm, and_iff_right hacceptable]
      · rw [hcheck]
        refine ⟨fun s => ?_, fun _ => ⟨reason, rfl⟩⟩
        exact ⟨nofun, fun h => absurd h.1 hnot⟩
  · intro sources' h
    rw [ofSources_eq, byPrecedence_congr h, ← ofSources_eq]

end Settings
end AccessControl
