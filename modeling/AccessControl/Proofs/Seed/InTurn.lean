import AccessControl.Proofs.Decision.Inheritance
import AccessControl.Proofs.PolicyStore.Changes
import AccessControl.Seed
import Mathlib.Data.List.Induction

/-! # Records in turn

Steps are followed one after another up to the first that is refused. When each record is taken up
or refused for what stands before it, following the steps of all records succeeds just when every
record is taken up in its turn.
-/
namespace AccessControl

namespace Stores

def next (st : Stores) (c : StoreCall) : Result Stores := (st.serve c).map (·.2)

theorem after_of_next {st st' : Stores} {c : StoreCall} (h : st.next c = .ok st') :
    st.after c = st' := by
  rw [next] at h
  rw [after]
  cases hserve : st.serve c with
  | error e =>
    rw [hserve] at h
    cases h
  | ok served =>
    rw [hserve] at h
    cases h
    rfl

end Stores

namespace Seed

variable {st : Stores} {a b : List Step} {W W' : Prop} {J J' : Stores → Prop}

/-- Following the steps succeeds under a condition and only then, and something is true of the
stores that it leaves. -/
def Leads (st : Stores) (steps : List Step) (W : Prop) (J : Stores → Prop) : Prop :=
  (∃ st', follow st steps = (.ok (), st') ∧ W ∧ J st') ∨
    (∃ e st', follow st steps = (.error e, st')) ∧ ¬W

/-- Steps are followed up to the first that is refused, wherever a list of them is split. -/
theorem follow_append (st : Stores) (a b : List Step) : follow st (a ++ b) = match follow st a with
    | (.ok _, st') => follow st' b
    | (.error e, st') => (.error e, st') := by
  induction a generalizing st with
  | nil => rfl
  | cons step rest ih =>
    rw [List.cons_append, follow, follow]
    cases step.call with
    | error e => rfl
    | ok call =>
      dsimp only
      cases st.serve call with
      | error e => rfl
      | ok served => exact ih served.2

namespace Leads

theorem nil (h : J st) : Leads st [] True J := .inl ⟨st, rfl, trivial, h⟩

theorem congr (h : Leads st a W J) (hiff : W ↔ W') (hJ : ∀ st', J st' → J' st') :
    Leads st a W' J' := by
  rcases h with ⟨st', hfollow, hw, hj⟩ | ⟨hfails, hw⟩
  · exact .inl ⟨st', hfollow, hiff.1 hw, hJ st' hj⟩
  · exact .inr ⟨hfails, fun h => hw (hiff.2 h)⟩

theorem append (h : Leads st a W J) (h' : ∀ st', J st' → Leads st' b W' J') :
    Leads st (a ++ b) (W ∧ W') J' := by
  rcases h with ⟨st', hfollow, hw, hj⟩ | ⟨⟨e, st', hfollow⟩, hw⟩
  · rcases h' st' hj with ⟨st'', hfollow', hw', hj'⟩ | ⟨⟨e, st'', hfollow'⟩, hw'⟩
    · exact .inl ⟨st'', by rw [follow_append, hfollow]; exact hfollow', ⟨hw, hw'⟩, hj'⟩
    · exact .inr ⟨⟨e, st'', by rw [follow_append, hfollow]; exact hfollow'⟩, fun h => hw' h.2⟩
  · exact .inr ⟨⟨e, st', by rw [follow_append, hfollow]⟩, fun h => hw h.1⟩

/-- A record that cannot be read. -/
theorem of_unreadable {record : Option String} {e : AuthError} (hw : ¬W) :
    Leads st [⟨record, .error e⟩] W J :=
  .inr ⟨⟨_, st, rfl⟩, hw⟩

/-- A record that is one call. -/
theorem of_call {record : Option String} {c : StoreCall} (hw : (∃ st', st.next c = .ok st') ↔ W)
    (hj : ∀ st', st.next c = .ok st' → J st') : Leads st [⟨record, .ok c⟩] W J := by
  rw [Stores.next] at hw hj
  cases hserve : st.serve c with
  | ok served =>
    rw [hserve] at hw hj
    refine .inl ⟨served.2, ?_, hw.1 ⟨_, rfl⟩, hj _ rfl⟩
    simp only [follow, hserve]
  | error e =>
    rw [hserve] at hw
    refine .inr ⟨⟨.refused record e, st, ?_⟩, fun h => ?_⟩
    · simp only [follow, hserve]
    · obtain ⟨st', hok⟩ := hw.2 h
      cases hok

end Leads

variable {α : Type} {P Q : List α → α → Prop} {l : List α} {x : α}

def InTurn (P : List α → α → Prop) (l : List α) : Prop :=
  ∀ before x after, l = before ++ x :: after → P before x

theorem inTurn_nil : InTurn P [] := by
  intro before x after h
  cases before <;> cases h

theorem inTurn_concat : InTurn P (l ++ [x]) ↔ InTurn P l ∧ P l x := by
  constructor
  · intro h
    refine ⟨fun before y after hl => ?_, h l x [] rfl⟩
    exact h before y (after ++ [x]) (by rw [hl, List.append_assoc, List.cons_append])
  · rintro ⟨hl, hx⟩ before y after h
    rcases List.eq_nil_or_concat after with rfl | ⟨after, z, rfl⟩
    · obtain ⟨rfl, hy⟩ := List.append_inj' h rfl
      cases hy
      exact hx
    · have hsplit : l ++ [x] = (before ++ y :: after) ++ [z] := by
        rw [h, List.concat_eq_append, List.append_assoc, List.cons_append]
      exact hl before y after (List.append_inj' hsplit rfl).1

theorem inTurn_and :
    InTurn (fun before x => P before x ∧ Q before x) l ↔ InTurn P l ∧ InTurn Q l := by
  constructor
  · exact fun h => ⟨fun before x after hl => (h before x after hl).1,
      fun before x after hl => (h before x after hl).2⟩
  · exact fun h before x after hl => ⟨h.1 before x after hl, h.2 before x after hl⟩

theorem inTurn_forall {p : α → Prop} : InTurn (fun _ x => p x) l ↔ ∀ x ∈ l, p x := by
  constructor
  · intro h x hx
    obtain ⟨before, after, hl⟩ := List.append_of_mem hx
    exact h before x after hl
  · rintro h before x after rfl
    exact h x (List.mem_append_right _ (List.mem_cons_self ..))

theorem inTurn_pairwise {r : α → α → Prop} :
    InTurn (fun before x => ∀ y ∈ before, r y x) l ↔ l.Pairwise r := by
  induction l using List.reverseRecOn with
  | nil => exact ⟨fun _ => .nil, fun _ => inTurn_nil⟩
  | append_singleton l x ih =>
    rw [inTurn_concat, ih, List.pairwise_append]
    simp only [List.mem_singleton, forall_eq, List.pairwise_singleton, true_and]

theorem inTurn_apart {p : α → Prop} {r : α → α → Prop} :
    InTurn (fun before x => p x ∧ ∀ y ∈ before, r y x) l ↔ (∀ x ∈ l, p x) ∧ l.Pairwise r := by
  rw [inTurn_and, inTurn_forall, inTurn_pairwise]

/-- When one record after another is taken up under a condition and only then, so are all of them.
The invariant tells what the stores hold after some of the records. -/
theorem leads_inTurn {f : Nat → α → Step} {I : List α → Stores → Prop} (start : I [] st)
    (step : ∀ before x after, l = before ++ x :: after → ∀ st, I before st →
      Leads st [f before.length x] (P before x) (I (before ++ [x]))) :
    Leads st (l.mapIdx f) (InTurn P l) (I l) := by
  -- from the right, because a record is judged by those before it
  induction l using List.reverseRecOn with
  | nil => exact (Leads.nil start).congr ⟨fun _ => inTurn_nil, fun _ => trivial⟩ fun _ h => h
  | append_singleton l x ih =>
    have hbefore : Leads st (l.mapIdx f) (InTurn P l) (I l) := by
      refine ih fun before y after hl => step before y (after ++ [x]) ?_
      rw [hl, List.append_assoc, List.cons_append]
    rw [List.mapIdx_concat]
    exact (hbefore.append (step l x [] rfl)).congr inTurn_concat.symm fun _ h => h

end Seed
end AccessControl
