import WorkflowRules.Proofs.Json.Ordered
import WorkflowRules.Proofs.Rule.Codec
import WorkflowRules.Proofs.Workflow.Codec

/-!
# What is encoded is decoded

Rules and definitions are stored as JSON values. A value of its type is decoded from its own
encoding, whatever its conditions, parameters and metadata hold. What a type allows and its record
does not say is named here: objects are in order, a priority has 32 bits, and the known fields of
metadata are not among the others.

* `Condition.ofValue_toJson_iff` — the condition trees that are decoded from their encodings
* `Rule.Regular.ofValue_toJson`, `Definition.ofValue_toJson` — rules and definitions are
* `decode_encode` — no decoded rule or definition is changed by encoding and decoding it
-/

namespace WorkflowRules

open Json (Scan Reader Origin Field FieldList Fits)

/-- Fields that were read are in order. -/
theorem Json.Reader.ordered_of_fields {origin : Origin} {scan : Scan} {fs : Json.Fields}
    (h : Reader.fields origin scan = .ok fs) : (Json.object fs).Ordered := by
  cases scan with
  | object scans ending =>
    obtain ⟨inner, -, h⟩ := ok_of_bind h
    obtain ⟨hfits, ascending⟩ :=
      Json.fits_of_toFields? (Reader.fieldsOf_ok h) (by simp) Json.Fields.ascending_nil
    exact Json.ordered_object.2 ⟨ascending, fun field hfield => (hfits field hfield).ordered⟩
  | _ => cases h

/-! ## Metadata -/

namespace Metadata

/-- The other fields are an object in order, and no known field is among them. -/
structure Regular (m : Metadata) : Prop where
  ordered : (Json.object m.extra).Ordered
  unknown : ∀ field ∈ m.extra, field.1 ≠ "description" ∧ field.1 ≠ "tags"

theorem isExtra_iff {name : String} :
    isExtra name = true ↔ name ≠ "description" ∧ name ≠ "tags" := by
  simp [isExtra]

/-- Metadata are kept when they have no field of a known name besides those that they know. -/
theorem kept_value_iff {m : Metadata} : Kept .value m ↔ m.Regular := by
  constructor
  · intro h
    refine ⟨Json.ordered_object.2 ⟨h.ascending, fun field hfield => ?_⟩, fun field hfield => ?_⟩
    · exact (h.extra field hfield).2.ordered
    · exact isExtra_iff.1 (h.extra field hfield).1
  · intro h
    obtain ⟨ascending, hvalues⟩ := Json.ordered_object.1 h.ordered
    refine ⟨ascending, fun field hfield => ⟨isExtra_iff.2 (h.unknown field hfield), ?_⟩, ?_⟩
    · exact Json.fits_none_iff.2 (hvalues field hfield)
    · exact fun _ => ⟨.value, rfl⟩

theorem ofValue_toJson_iff {m : Metadata} : reader.ofValue m.toJson = .ok m ↔ m.Regular := by
  rw [← kept_value_iff]
  constructor
  · intro h
    obtain ⟨inner, henter, hkept⟩ := kept_of_reader h
    cases henter
    exact hkept
  · exact reader_ofValue rfl

end Metadata

/-! ## Conditions -/

namespace Condition

/-- The values of all leaves are in order. -/
inductive Ordered : Condition → Prop
  | group (connective : Connective) {members : List Condition} (h : ∀ c ∈ members, Ordered c) :
    Ordered (.group connective members)
  | leaf {c : Comparison} (h : c.value.Ordered) : Ordered (.leaf c)

theorem Ordered.kept {c : Condition} (h : c.Ordered) : Kept none c := by
  induction h with
  | group connective _ ih => exact kept_group rfl rfl connective ih
  | leaf h => exact kept_leaf rfl (Json.fits_none_iff.2 h)

mutual

theorem ordered_of_toJson : ∀ {c : Condition}, c.toJson.Ordered → c.Ordered
  | .group connective members, h => by
    rw [groupFields_eq, Json.ordered_object] at h
    refine .group connective (ordered_of_toJsonAll ?_)
    exact Json.ordered_array.1 (h.2 _ List.mem_cons_self)
  | .leaf c, h => by
    rw [leafFields_eq, Json.ordered_object] at h
    exact .leaf (h.2 ("value", c.value) (by simp))

theorem ordered_of_toJsonAll : ∀ {cs : List Condition}, (∀ j ∈ toJsonAll cs, j.Ordered) →
    ∀ c ∈ cs, c.Ordered
  | [], _ => by simp
  | c :: rest, h => by
    rw [toJsonAll, List.forall_mem_cons] at h
    exact List.forall_mem_cons.2 ⟨ordered_of_toJson h.1, ordered_of_toJsonAll h.2⟩

end

/-- A tree is decoded from its encoding, whatever its groups and leaves are. -/
theorem ofValue_toJson_iff {c : Condition} : reader.ofValue c.toJson = .ok c ↔ c.Ordered := by
  constructor
  · intro h
    exact ordered_of_toJson (kept_of_reader h).fits.ordered
  · intro h
    exact reader_ofValue h.kept

end Condition

/-! ## Rules -/

namespace Action

/-- The parameters are an object in order. -/
def Regular (a : Action) : Prop := (Json.object a.params).Ordered

theorem regular_of_reader {origin : Origin} {scan : Scan} {a : Action}
    (h : reader origin scan = .ok a) : a.Regular := by
  obtain ⟨inner, given, ⟨type, params, ⟨⟩⟩, -, ⟨-, hparams, -⟩, -, rfl⟩ :=
    Reader.record_ok proper_fields h
  rcases hparams.cases with ⟨part, -, hread⟩ | habsent
  · exact Reader.ordered_of_fields hread
  · cases habsent
    exact Json.ordered_object.2 ⟨Json.Fields.ascending_nil, by simp⟩

theorem toJson_eq (a : Action) :
    a.toJson = .ofFields (fields.written writers (a.type, a.params, ())) := rfl

/-- A regular action is decoded from its encoding. -/
theorem Regular.reader_ofValue {a : Action} (h : a.Regular) :
    reader .value (.ofValue a.toJson) = .ok a := by
  obtain ⟨ascending, hvalues⟩ := Json.ordered_object.1 h
  have henter : Json.Origin.enter .value = .ok .value := rfl
  have hparams : Reader.fields .value (.ofValue (.object a.params)) = .ok a.params :=
    Reader.fields_ofValue henter ascending fun field hfield =>
      Json.fits_none_iff.2 (hvalues field hfield)
  have restored : fields.Restored .value writers (a.type, a.params, ()) :=
    ⟨Reader.string_ofValue .value a.type, hparams, trivial⟩
  rw [toJson_eq]
  exact Reader.record_restored proper_fields.distinct rfl restored

end Action

namespace Rule

/-- The parts of the rule are regular, and its priority has 32 bits. -/
structure Regular (r : Rule) : Prop where
  priority : -2 ^ 31 ≤ r.priority ∧ r.priority ≤ 2 ^ 31 - 1
  condition : r.condition.Ordered
  actions : ∀ a ∈ r.actions, a.Regular
  metadata : r.metadata.Regular

/-- A rule is decoded from its encoding, whatever its parts hold. -/
theorem Regular.ofValue_toJson {r : Rule} (h : r.Regular) :
    Reader.ofValue reader r.toJson = .ok r := by
  have hpriority : Reader.int (-2 ^ 31) (2 ^ 31 - 1) .value (.ofValue (.ofInt r.priority)) =
      .ok r.priority :=
    Reader.int_ofValue (by decide) (by decide) h.priority
  have hactions : Reader.list Action.reader .value
      (.ofValue (.array (r.actions.map Action.toJson))) = .ok r.actions :=
    Reader.list_ofValue rfl fun a ha => (h.actions a ha).reader_ofValue
  have restored : fields.Restored .value writers r.row :=
    ⟨Reader.string_ofValue .value r.name, Reader.bool_ofValue .value r.enabled, hpriority,
      Reader.string_ofValue .value r.trigger, Condition.ofValue_toJson_iff.2 h.condition, hactions,
      Metadata.ofValue_toJson_iff.2 h.metadata, trivial⟩
  rw [Reader.ofValue, toJson_eq]
  exact Reader.record_restored proper_fields.distinct rfl restored

/-- Whatever was decoded as a rule is regular. -/
theorem regular_of_ofValue {j : Json} {r : Rule} (h : Reader.ofValue reader j = .ok r) :
    r.Regular := by
  have room : Origin.value.Allows 4 := trivial
  obtain ⟨inner, ⟨name, enabled, priority, trigger, condition, actions, metadata, ⟨⟩⟩, henter,
    restored, rfl⟩ := Reader.restored_of_record proper_fields
      (fun henter => restores_fields (room.inner henter)) h
  cases henter
  obtain ⟨-, -, hpriority, -, hcondition, hactions, hmetadata, -⟩ := restored
  have hread : Reader.int (-2 ^ 31) (2 ^ 31 - 1) .value (.ofValue (.ofInt priority)) =
      .ok priority := hpriority
  refine ⟨Reader.int_ok hread, Condition.ofValue_toJson_iff.1 hcondition,
    fun a ha => ?_, Metadata.ofValue_toJson_iff.1 hmetadata⟩
  have hlist : Reader.list Action.reader .value
      (.ofValue (.array (actions.map Action.toJson))) = .ok actions := hactions
  obtain ⟨_, -, hread⟩ := Reader.list_ok hlist
  obtain ⟨item, hitem⟩ := hread a ha
  exact Action.regular_of_reader hitem

end Rule

/-! ## Definitions -/

namespace Definition

/-- A definition is decoded from its encoding, whatever its metadata holds. -/
theorem ofValue_toJson {d : Definition} (h : d.metadata.Regular) :
    Reader.ofValue reader d.toJson = .ok d := by
  have room : Json.Origin.value.Allows 2 := trivial
  have htransitions : Reader.list Transition.reader .value
      (.ofValue (.array (d.transitions.map Transition.toJson))) = .ok d.transitions :=
    Reader.list_ofValue rfl fun t _ => Transition.reader_ofValue room t
  have restored : fields.Restored .value writers d.row :=
    ⟨Reader.string_ofValue .value d.name, Reader.string_ofValue .value d.entityType,
      Reader.string_ofValue .value d.initialState, Reader.strings_ofValue rfl d.states.toList,
      htransitions, Metadata.ofValue_toJson_iff.2 h, trivial⟩
  rw [Reader.ofValue]
  refine (Reader.record_restored proper_fields.distinct rfl restored).trans ?_
  show Except.ok (Definition.mk d.name d.entityType d.initialState (.ofList d.states.toList)
    d.transitions d.metadata) = .ok d
  rw [NameSet.ofList_toList]

/-- Whatever was decoded as a definition has regular metadata. -/
theorem regular_of_ofValue {j : Json} {d : Definition} (h : Reader.ofValue reader j = .ok d) :
    d.metadata.Regular := by
  have room : Origin.value.Allows 4 := trivial
  obtain ⟨inner, ⟨name, entityType, initialState, states, transitions, metadata, ⟨⟩⟩, henter,
    restored, rfl⟩ := Reader.restored_of_record proper_fields
      (fun henter => restores_fields (room.inner henter)) h
  cases henter
  obtain ⟨-, -, -, -, -, hmetadata, -⟩ := restored
  exact Metadata.ofValue_toJson_iff.1 hmetadata

end Definition

/-! ## Both -/

/--
Rules and definitions are decoded from their encodings: all whose parts are regular, as every one
is that was decoded from some JSON value. What was decoded once is therefore decoded again from
what is encoded of it.
-/
theorem decode_encode :
    (∀ r : Rule, r.Regular → Reader.ofValue Rule.reader r.toJson = .ok r) ∧
    (∀ d : Definition, d.metadata.Regular → Reader.ofValue Definition.reader d.toJson = .ok d) ∧
    (∀ (j : Json) (r : Rule), Reader.ofValue Rule.reader j = .ok r →
      r.Regular ∧ Reader.ofValue Rule.reader r.toJson = .ok r) ∧
    (∀ (j : Json) (d : Definition), Reader.ofValue Definition.reader j = .ok d →
      d.metadata.Regular ∧ Reader.ofValue Definition.reader d.toJson = .ok d) := by
  refine ⟨fun r h => h.ofValue_toJson, fun d h => Definition.ofValue_toJson h, ?_, ?_⟩
  · intro j r h
    have hregular := Rule.regular_of_ofValue h
    exact ⟨hregular, hregular.ofValue_toJson⟩
  · intro j d h
    have hregular := Definition.regular_of_ofValue h
    exact ⟨hregular, Definition.ofValue_toJson hregular⟩

/-- Metadata with a tag and a nested object under a name of its own. -/
def reviewed : Metadata :=
  ⟨none, ["audit"], [("owner", .object [("team", .string "ops"), ("unit", .null)])]⟩

/-- A rule with an empty group and with a leaf whose operator is the name of a connective. -/
def reorder : Rule where
  name := "reorder"
  enabled := false
  priority := -7
  trigger := "stock.low"
  condition := .group .any [.leaf ⟨"stock", "AND", .array [.bool true]⟩, .group .all []]
  actions := [⟨"set_field", [("field", .string "due"), ("value", .object [])]⟩]
  metadata := reviewed

/-- A definition with its states in no particular order and with a loop. -/
def ordering : Definition :=
  { Definition.ofStates "ordering" "order" "open" ["open", "done", "held"] with
    transitions := [⟨["open", "held"], "held", "hold", ["in_stock"], [], ["notify"]⟩]
    metadata := reviewed }

/-- Both are decoded from their encodings. A rule that was given without the fields that have a
default is decoded from its encoding too, in which they are written. -/
theorem reorder_decoded :
    (reorder.Regular ∧ Reader.ofValue Rule.reader reorder.toJson = .ok reorder) ∧
      (ordering.metadata.Regular ∧
        Reader.ofValue Definition.reader ordering.toJson = .ok ordering) ∧
      Reader.ofValue Rule.reader (.object [("actions", .array []), ("name", .string "r"),
        ("trigger", .string "t")]) = .ok (.onEvent "r" "t") ∧
      (Rule.onEvent "r" "t").Regular ∧
      Reader.ofValue Rule.reader (Rule.onEvent "r" "t").toJson = .ok (.onEvent "r" "t") := by
  obtain ⟨hrule, hdefinition, hdecodedRule, hdecodedDefinition⟩ := decode_encode
  have hnames : "team" < "unit" ∧ "field" < "value" := by decide
  have howner : (Json.object [("team", .string "ops"), ("unit", .null)]).Ordered :=
    Json.ordered_object.2 ⟨List.pairwise_pair.2 hnames.1, by simp⟩
  have hmetadata : reviewed.Regular := by
    refine ⟨Json.ordered_object.2 ⟨List.pairwise_singleton _ _, ?_⟩, by simp [reviewed]⟩
    rintro field hfield
    rwa [List.mem_singleton.1 hfield]
  have hregular : reorder.Regular := by
    refine ⟨by decide, ?_, ?_, hmetadata⟩
    · refine .group .any fun c hc => ?_
      simp only [List.mem_cons, List.not_mem_nil, or_false] at hc
      rcases hc with rfl | rfl
      · exact .leaf (by simp)
      · exact .group .all (by simp)
    · intro a ha
      rw [List.mem_singleton.1 ha]
      refine Json.ordered_object.2 ⟨List.pairwise_pair.2 hnames.2, ?_⟩
      rintro field hfield
      simp only [List.mem_cons, List.not_mem_nil, or_false] at hfield
      rcases hfield with rfl | rfl <;> simp [Json.Fields.Ascending]
  have hread : Reader.ofValue Rule.reader (.object [("actions", .array []), ("name", .string "r"),
      ("trigger", .string "t")]) = .ok (.onEvent "r" "t") := by rfl
  have hordering := hdefinition ordering hmetadata
  exact ⟨⟨hregular, hrule _ hregular⟩, hdecodedDefinition _ _ hordering, hread,
    hdecodedRule _ _ hread⟩

end WorkflowRules
