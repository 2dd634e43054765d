import AccessControl.Group
import AccessControl.Policy
import AccessControl.Proofs.Calendar.Texts
import AccessControl.Proofs.Json.Trees
import AccessControl.Proofs.Token.Claims

/-! # Records and their JSON

A record is written as an object of its fields and read from that object again. Nothing stands in
the way of that but what a document may hold: the times of a group are moments of the calendar, its
free-form fields are in order and free of floating-point numbers, and the whole has no more levels
than a document may have.
-/
namespace AccessControl
open Token.Claims (said lookup_said plain_said orElse_asOption)

/-- What is read from the JSON text of a record is that record, and it has the same text. -/
def SurvivesJson {α : Type} (toValue : α → Value) (ofValue : Value → Option α) (a : α) : Prop :=
  ∃ b, (Json.readText (Json.compact (toValue a))).bind ofValue = some b ∧ b = a ∧
    Json.compact (toValue b) = Json.compact (toValue a)

theorem survivesJson {α : Type} {toValue : α → Value} {ofValue : Value → Option α} {a : α}
    (hplain : (toValue a).Plain) (hread : ofValue (toValue a) = some a) :
    SurvivesJson toValue ofValue a := by
  refine ⟨a, ?_, rfl, rfl⟩
  rw [Json.readText_compact hplain, Option.bind_some, hread]

namespace ObjectRef

theorem plain_toValue (o : ObjectRef) : o.toValue.Plain := by
  apply Value.Plain.object
  simp only [List.forall_mem_cons]
  exact ⟨.string _, .string _, nofun⟩

theorem ofValue_toValue (o : ObjectRef) : ofValue o.toValue = some o := rfl

end ObjectRef

namespace Policy

theorem plain_toValue (p : Policy) : p.toValue.Plain := by
  apply Value.Plain.object
  simp only [List.forall_mem_cons]
  exact ⟨.string _, .string _, .string _, .string _, .string _, .string _, nofun⟩

theorem ofValue_toValue (p : Policy) : ofValue p.toValue = some p := by
  obtain ⟨id, ⟨⟨kind, subject⟩, object, action⟩⟩ := p
  cases kind <;> rfl

end Policy

namespace Group

variable {g : Group} {fields : Metadata}

structure IsRecord (g : Group) : Prop where
  metadata : (Value.object g.metadata).Canonical
  createdAt : g.createdAt.IsRegular
  updatedAt : g.updatedAt.IsRegular

def entries (g : Group) : List (String × Option Value) :=
  [("id", some (.string g.id)), ("owner_id", some (.string g.ownerId)),
    ("parent_id", g.parent.map .string), ("name", some (.string g.name)),
    ("description", some (.string g.description)), ("metadata", some (.object g.metadata)),
    ("created_at", some (.string g.createdAt.text)),
    ("updated_at", some (.string g.updatedAt.text))]

theorem toValue_eq (g : Group) : g.toValue = .object (said g.entries) := by
  rw [toValue, entries]
  cases g.parent <;> rfl

theorem read_toValue (g : Group) : layout.read g.toValue = some (said g.entries) := by
  rw [toValue_eq, entries]
  cases g.parent <;> rfl

theorem lookup_parent (g : Group) :
    Value.lookup "parent_id" (said g.entries) = g.parent.map .string := by
  rw [lookup_said, entries]
  cases g.parent <;> rfl

theorem plain_toValue (h : g.IsRecord) : g.toValue.Plain := by
  rw [toValue_eq]
  apply plain_said
  simp only [entries, List.forall_mem_cons, List.not_mem_nil, false_implies, implies_true, and_true,
    Option.mem_def, Option.some.injEq, forall_eq']
  refine ⟨.string _, .string _, ?_, .string _, .string _, h.metadata.plain, .string _, .string _⟩
  intro v hv
  obtain ⟨s, hs, rfl⟩ := Option.map_eq_some_iff.1 hv
  exact .string s

theorem levels_toValue (g : Group) : g.toValue.levels = (Value.object g.metadata).levels + 1 := by
  rw [toValue]
  cases g.parent <;>
    simp only [List.nil_append, List.cons_append, Value.levels, Value.levelsOfFields,
      Nat.zero_max, Nat.max_zero]

theorem metadataOf_eq (h : (Value.object fields).Canonical) (depth : Nat) :
    metadataOf depth (.object fields) = if (Value.object fields).levels ≤ depth then some fields
      else none := by
  rw [metadataOf, h.isNormal depth]
  by_cases hlevels : (Value.object fields).levels ≤ depth
  · simp only [if_pos hlevels]
  · simp only [if_neg hlevels]

theorem need_instant {name : String} {t : Instant} (h : t.IsRegular)
    (hlookup : Value.lookup name fields = some (.string t.text)) :
    Value.need name asInstant fields = some t := by
  rw [Value.need, hlookup, Option.bind_some, asInstant, Value.asString,
    Option.bind_some, h.read_text]

theorem orElse_metadata (h : g.IsRecord) :
    Value.orElse "metadata" (metadataOf (depthLimit - 1)) [] (said g.entries) =
      if g.toValue.levels ≤ depthLimit then some g.metadata else none := by
  have hlookup : Value.lookup "metadata" (said g.entries) = some (.object g.metadata) := by
    rw [lookup_said]
    rfl
  have hlevels : (Value.object g.metadata).levels ≤ depthLimit - 1 ↔
      g.toValue.levels ≤ depthLimit := by
    rw [levels_toValue]
    exact Nat.le_sub_iff_add_le (by decide)
  rw [Value.orElse, hlookup]
  simp only [metadataOf_eq h.metadata, hlevels]

/-- A group is read from its record unless that has too many levels. -/
theorem ofValue_toValue (h : g.IsRecord) :
    ofValue g.toValue = if g.toValue.levels ≤ depthLimit then some g else none := by
  have hid : Value.need "id" Value.asString (said g.entries) = some g.id := rfl
  have howner : Value.need "owner_id" Value.asString (said g.entries) = some g.ownerId := rfl
  have hparent : Value.orElse "parent_id" (Value.asOption Value.asString) none (said g.entries) =
      some g.parent :=
    orElse_asOption (g := Value.string) (lookup_parent g) fun _ _ => rfl
  have hname : Value.need "name" Value.asString (said g.entries) = some g.name := by
    rw [Value.need, lookup_said]
    rfl
  have hdescription :
      Value.orElse "description" Value.asString "" (said g.entries) = some g.description := by
    rw [Value.orElse, lookup_said]
    rfl
  have hcreated : Value.need "created_at" asInstant (said g.entries) = some g.createdAt := by
    apply need_instant h.createdAt
    rw [lookup_said]
    rfl
  have hupdated : Value.need "updated_at" asInstant (said g.entries) = some g.updatedAt := by
    apply need_instant h.updatedAt
    rw [lookup_said]
    rfl
  simp only [ofValue, read_toValue, Option.bind_eq_bind, Option.bind_some, hid, howner, hparent,
    hname, hdescription, orElse_metadata h, hcreated, hupdated]
  split <;> rfl

/-- The record of a group names a parent exactly when the group has one. -/
theorem parent_mem_names_iff (g : Group) :
    "parent_id" ∈ (said g.entries).map (·.1) ↔ g.isRoot = false := by
  rw [isRoot, entries]
  cases g.parent with
  | none => exact ⟨fun h => absurd h (of_decide_eq_false rfl), nofun⟩
  | some p => exact ⟨fun _ => rfl, fun _ => of_decide_eq_true rfl⟩

end Group

/-- Every group whose record a document can hold, every policy and every object is read from its
JSON text as itself, and has the same text again. The document of a group has a field for its parent
exactly when the group is no root, and no other parent than that of the group is read from it. -/
theorem stored_records_survive_json :
    (∀ g : Group, g.IsRecord → g.toValue.levels ≤ 127 →
      SurvivesJson Group.toValue Group.ofValue g) ∧
    (∀ p : Policy, SurvivesJson Policy.toValue Policy.ofValue p) ∧
    (∀ o : ObjectRef, SurvivesJson ObjectRef.toValue ObjectRef.ofValue o) ∧
    ∀ g : Group, g.IsRecord →
      ∃ fields, Json.readText (Json.compact g.toValue) = some (.object fields) ∧
      ("parent_id" ∈ fields.map (·.1) ↔ g.isRoot = false) ∧
      ∀ back, Group.ofValue (.object fields) = some back → back.parent = g.parent := by
  refine ⟨?_, ?_, ?_, ?_⟩
  · intro g h hlevels
    have hread := Group.ofValue_toValue h
    rw [if_pos (show g.toValue.levels ≤ Group.depthLimit from hlevels)] at hread
    exact survivesJson (Group.plain_toValue h) hread
  · exact fun p => survivesJson p.plain_toValue p.ofValue_toValue
  · exact fun o => survivesJson o.plain_toValue o.ofValue_toValue
  · intro g h
    refine ⟨said g.entries, ?_, g.parent_mem_names_iff, ?_⟩
    · rw [Json.readText_compact (Group.plain_toValue h), Group.toValue_eq]
    · intro back hback
      rw [← Group.toValue_eq, Group.ofValue_toValue h] at hback
      obtain ⟨_, hsame⟩ := Option.ite_none_right_eq_some.1 hback
      exact congrArg Group.parent (Option.some.inj hsame).symm

def Group.extreme : Group where
  id := "\"\\\n\u0000"
  ownerId := ""
  parent := some ""
  name := "Ж😀"
  description := "parent_id"
  metadata := [("", .object []),
    ("a", .array [.int Value.leastInt, .object [("\"", .null), ("é", .bool true)]]),
      ("b", .int Value.greatestInt)]
  createdAt := ⟨Instant.leastSeconds, 1⟩
  updatedAt := Instant.latest

theorem Group.extreme_isRecord : extreme.IsRecord where
  metadata := by
    refine .object (by decide) ?_
    simp only [extreme, List.forall_mem_cons]
    refine ⟨.object .nil nofun, .array ?_, .int (by decide) (by decide), nofun⟩
    simp only [List.forall_mem_cons]
    refine ⟨.int (by decide) (by decide), .object (by decide) ?_, nofun⟩
    simp only [List.forall_mem_cons]
    exact ⟨.null, .bool true, nofun⟩
  createdAt := ⟨by decide, by decide⟩
  updatedAt := Instant.latest_isRegular

theorem extreme_group_survives_json : Group.extreme.IsRecord ∧ Group.extreme.toValue.levels = 4 ∧
    SurvivesJson Group.toValue Group.ofValue Group.extreme ∧
    ∃ fields, Json.readText (Json.compact Group.extreme.toValue) = some (.object fields) ∧
      "parent_id" ∈ fields.map (·.1) ∧ ∀ back, Group.ofValue (.object fields) = some back →
        back.parent = some "" := by
  have hrecord := Group.extreme_isRecord
  obtain ⟨hgroups, -, -, hparents⟩ := stored_records_survive_json
  obtain ⟨fields, hread, hnames, hback⟩ := hparents Group.extreme hrecord
  exact ⟨hrecord, rfl, hgroups Group.extreme hrecord (by decide), fields, hread,
    hnames.2 rfl, hback⟩

end AccessControl
