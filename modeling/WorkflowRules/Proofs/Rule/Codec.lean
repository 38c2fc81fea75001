import WorkflowRules.Proofs.Condition.Codec
import WorkflowRules.Proofs.Metadata
import WorkflowRules.Rule.Basic

/-!
# Rules are read back

A rule that was read from a text is read from its own text, and so is the same rule enabled or
disabled. Only the numbers in it have to be denoted by their texts.

* `Rule.Kept` — the rules whose fields are read from what is written of them
* `Rule.kept_of_ofText`, `Rule.Kept.withEnabled` — the rules that are read, enabled and disabled
* `Rule.Kept.ofText_print`
* `Rule.Plain` — rules of which that is known without having read them
-/

namespace WorkflowRules

open Json (Reader Origin Field FieldList Fits Writers)

namespace Action

theorem proper_fields : fields.Proper where
  distinct := by decide
  lenient := ⟨fun _ h => h, fun _ h => h, trivial⟩

/-- How the fields of an action are written. -/
def writers : Writers [String, Json.Fields] := (.string, .object, ())

/-- An action needs two levels: its own and that of its parameters. -/
theorem reader_restores {origin : Origin} (room : origin.Allows 2) :
    reader.Restores toJson origin := by
  refine Reader.record_restores proper_fields writers (fun {inner} henter => ?_) fun _ => rfl
  obtain ⟨deeper, hdeeper, -⟩ := (room.inner henter).enter
  have hparams : Reader.fields inner (.ofValue (.object [])) = .ok [] :=
    Reader.fields_ofValue hdeeper Json.Fields.ascending_nil (by simp)
  exact ⟨Field.restores_required Reader.string_restores,
    Field.restores_defaulted Reader.fields_restores hparams, trivial⟩

/-- An action whose parameters are texts. -/
structure Plain (a : Action) : Prop where
  ascending : a.params.Ascending
  texts : ∀ field ∈ a.params, ∃ s, field.2 = .string s

/-- A plain action is read back as it was written. -/
theorem Plain.reader_ofValue {a : Action} (h : a.Plain) {origin : Origin} (room : origin.Allows 2) :
    reader origin (.ofValue a.toJson) = .ok a := by
  obtain ⟨inner, henter, hroom⟩ := room.enter
  obtain ⟨deeper, hdeeper, -⟩ := hroom.enter
  have hparams : Reader.fields inner (.ofValue (.object a.params)) = .ok a.params := by
    refine Reader.fields_ofValue hdeeper h.ascending fun field hfield => ?_
    obtain ⟨s, hs⟩ := h.texts field hfield
    exact hs ▸ Json.fits_string _ s
  have restored : fields.Restored inner writers (a.type, a.params, ()) :=
    ⟨Reader.string_ofValue inner a.type, hparams, trivial⟩
  exact Reader.record_restored proper_fields.distinct henter restored

theorem Plain.exact {a : Action} (h : a.Plain) : a.toJson.Exact := by
  refine (Json.exact_ofFields (by simp)).2 fun field hfield => ?_
  simp only [List.mem_cons, List.not_mem_nil, or_false] at hfield
  rcases hfield with rfl | rfl
  · trivial
  · refine Json.exactFields_iff.2 fun field hfield => ?_
    obtain ⟨s, hs⟩ := h.texts field hfield
    exact hs ▸ trivial

end Action

namespace Rule

theorem proper_fields : fields.Proper where
  distinct := by decide
  lenient := ⟨fun _ h => h, fun _ h => h, fun _ h => h, fun _ h => h, fun _ h => h, fun _ h => h,
    fun _ h => h, trivial⟩

/-- How the fields of a rule are written. -/
def writers : Writers [String, Bool, Int, String, Condition, List Action, Metadata] :=
  (.string, .bool, .ofInt, .string, Condition.toJson, fun as => .array (as.map Action.toJson),
    Metadata.toJson, ())

/-- A rule needs one more level than its actions. -/
theorem restores_fields {inner : Origin} (room : inner.Allows 3) : fields.Restores inner writers := by
  obtain ⟨deeper, hdeeper, hroom⟩ := room.enter
  obtain ⟨deepest, hdeepest, -⟩ := hroom.enter
  have hcondition : Condition.reader inner (.ofValue Condition.always.toJson) = .ok .always :=
    Condition.reader_ofValue <|
      Condition.kept_group (Json.Origin.room_enter hdeeper) (Json.Origin.room_enter hdeepest) .all
        (by simp)
  have hactions : (Reader.list Action.reader).Restores
      (fun as => .array (as.map Action.toJson)) inner :=
    Reader.list_restores fun henter => Action.reader_restores (room.inner henter)
  have hmetadata : Metadata.reader inner (.ofValue Metadata.empty.toJson) = .ok .empty :=
    Metadata.reader_ofValue hdeeper (Metadata.kept_empty deeper)
  have hpriority : (Reader.int (-2 ^ 31) (2 ^ 31 - 1)).Restores .ofInt inner :=
    Reader.int_restores (by decide) (by decide)
  exact ⟨Field.restores_required Reader.string_restores,
    Field.restores_defaulted Reader.bool_restores (Reader.bool_ofValue inner true),
    Field.restores_defaulted hpriority (Reader.int_ofValue (by decide) (by decide) (by decide)),
    Field.restores_required Reader.string_restores,
    Field.restores_defaulted Condition.reader_restores hcondition,
    Field.restores_required hactions,
    Field.restores_defaulted Metadata.reader_restores hmetadata, trivial⟩

/-- The values of the fields of a rule. -/
def row (r : Rule) : Json.Row [String, Bool, Int, String, Condition, List Action, Metadata] :=
  (r.name, r.enabled, r.priority, r.trigger, r.condition, r.actions, r.metadata, ())

theorem toJson_eq (r : Rule) : r.toJson = .ofFields (fields.written writers r.row) := rfl

/-- Every field of the rule is read from what is written of it inside of a text. -/
def Kept (r : Rule) : Prop :=
  ∃ inner, Origin.enter (.text Json.maxDepth) = .ok inner ∧ fields.Restored inner writers r.row

/-- A rule that was read from a text is kept. -/
theorem kept_of_ofText {r : Rule} {s : String} (h : reader.ofText s = .ok r) : r.Kept := by
  obtain ⟨scan, hscan⟩ := Reader.ofText_ok h
  have room : Origin.Allows 4 (.text Json.maxDepth) := show 4 ≤ Json.maxDepth by decide
  obtain ⟨inner, row, henter, restored, rfl⟩ := Reader.restored_of_record proper_fields
    (fun henter => restores_fields (room.inner henter)) hscan
  exact ⟨inner, henter, restored⟩

/-- A rule that is kept is kept when it is enabled or disabled. -/
theorem Kept.withEnabled {r : Rule} (h : r.Kept) (enabled : Bool) : { r with enabled }.Kept := by
  obtain ⟨inner, henter, restored⟩ := h
  exact ⟨inner, henter, restored.1, Reader.bool_ofValue inner enabled, restored.2.2⟩

/-- A rule is read from its own text. -/
theorem Kept.ofText_print {r : Rule} (h : r.Kept) (exact : r.toJson.Exact) :
    reader.ofText r.toJson.print = .ok r := by
  obtain ⟨inner, henter, restored⟩ := h
  refine Reader.ofText_print exact ?_
  rw [toJson_eq]
  exact Reader.record_restored proper_fields.distinct henter restored

/-- Enabling a rule brings no numbers in. -/
theorem exact_withEnabled {r : Rule} (h : r.toJson.Exact) (enabled : Bool) :
    { r with enabled }.toJson.Exact := by
  have distinct (r : Rule) : ((fields.written writers r.row).map (·.1)).Nodup := by
    rw [FieldList.names_written]
    exact proper_fields.distinct
  rw [toJson_eq, Json.exact_ofFields (distinct _)] at h ⊢
  intro field hfield
  rcases List.mem_cons.1 hfield with rfl | hfield
  · exact h _ List.mem_cons_self
  · rcases List.mem_cons.1 hfield with rfl | hfield
    · trivial
    · exact h _ (List.mem_cons_of_mem _ (List.mem_cons_of_mem _ hfield))

/-! ## Rules without conditions -/

/-- A rule that every payload meets, without metadata, whose actions have texts as parameters. -/
structure Plain (r : Rule) : Prop where
  priority : -2 ^ 31 ≤ r.priority ∧ r.priority ≤ 2 ^ 31 - 1
  condition : r.condition = .always
  actions : ∀ a ∈ r.actions, a.Plain
  metadata : r.metadata = .empty

/-- A plain rule is kept. -/
theorem Plain.kept {r : Rule} (h : r.Plain) : r.Kept := by
  have room : Origin.Allows 4 (.text Json.maxDepth) := show 4 ≤ Json.maxDepth by decide
  obtain ⟨inner, henter, hinner⟩ := room.enter
  obtain ⟨deeper, hdeeper, hroom⟩ := hinner.enter
  obtain ⟨deepest, hdeepest, -⟩ := hroom.enter
  have hcondition : Condition.reader inner (.ofValue r.condition.toJson) = .ok r.condition := by
    rw [h.condition]
    exact Condition.reader_ofValue <|
      Condition.kept_group (Json.Origin.room_enter hdeeper) (Json.Origin.room_enter hdeepest) .all
        (by simp)
  have hmetadata : Metadata.reader inner (.ofValue r.metadata.toJson) = .ok r.metadata := by
    rw [h.metadata]
    exact Metadata.reader_ofValue hdeeper (Metadata.kept_empty deeper)
  have hactions : Reader.list Action.reader inner (.ofValue (.array (r.actions.map Action.toJson))) =
      .ok r.actions :=
    Reader.list_ofValue hdeeper fun a ha => (h.actions a ha).reader_ofValue hroom
  have hpriority : Reader.int (-2 ^ 31) (2 ^ 31 - 1) inner (.ofValue (.ofInt r.priority)) =
      .ok r.priority :=
    Reader.int_ofValue (by decide) (by decide) h.priority
  exact ⟨inner, henter, Reader.string_ofValue inner r.name, Reader.bool_ofValue inner r.enabled,
    hpriority, Reader.string_ofValue inner r.trigger, hcondition, hactions, hmetadata, trivial⟩

theorem Plain.exact {r : Rule} (h : r.Plain) : r.toJson.Exact := by
  refine (Json.exact_ofFields (by simp)).2 fun field hfield => ?_
  simp only [List.mem_cons, List.not_mem_nil, or_false] at hfield
  rcases hfield with rfl | rfl | rfl | rfl | rfl | rfl | rfl
  · trivial
  · trivial
  · exact Json.exact_ofInt ⟨Int.le_trans (by decide) h.priority.1, Int.le_trans h.priority.2 (by decide)⟩
  · trivial
  · rw [h.condition]
    refine (Json.exact_ofFields (by simp)).2 fun field hfield => ?_
    simp only [List.mem_cons, List.not_mem_nil, or_false] at hfield
    rcases hfield with rfl | rfl <;> trivial
  · refine Json.exactItems_iff.2 fun v hv => ?_
    obtain ⟨a, ha, rfl⟩ := List.mem_map.1 hv
    exact (h.actions a ha).exact
  · rw [h.metadata]
    trivial

/-- A plain rule is read from its own text. -/
theorem Plain.ofText_print {r : Rule} (h : r.Plain) : reader.ofText r.toJson.print = .ok r :=
  h.kept.ofText_print h.exact

end Rule

end WorkflowRules
