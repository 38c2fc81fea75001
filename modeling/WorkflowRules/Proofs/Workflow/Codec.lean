import WorkflowRules.Proofs.Metadata
import WorkflowRules.Workflow.Definition

/-!
# Definitions are read back

A definition that was read from a text is read from its own text, when the numbers in it are denoted
by their texts. The states of a definition are written in ascending order, whatever order they were
read in.

* `Definition.Kept` — the definitions whose fields are read from what is written of them
* `Definition.kept_of_ofText`, `Definition.kept_plain` — the definitions that are read, and those
  without metadata
* `Definition.Kept.ofText_print`
-/

namespace WorkflowRules

open Json (Reader Origin Field FieldList Writers)

namespace NameSet

/-- A name before all others goes to the front. -/
theorem insertInto_first {name : String} {names : List String} (h : ∀ n ∈ names, name < n) :
    insertInto name names = name :: names := by
  cases names with
  | nil => rfl
  | cons n rest =>
    have hlt := h n List.mem_cons_self
    have hne : name ≠ n := fun heq => String.lt_irrefl _ (heq ▸ hlt)
    rw [insertInto, if_neg hne, if_pos hlt]

/-- A set consists of its members. -/
theorem ofList_toList (s : NameSet) : ofList s.toList = s := by
  obtain ⟨names, ascending⟩ := s
  have hlist : (ofList names).toList = names := by
    induction names with
    | nil => rfl
    | cons name rest ih =>
      obtain ⟨hfirst, hrest⟩ := List.pairwise_cons.1 ascending
      have hinsert : (ofList (name :: rest)).toList = insertInto name (ofList rest).toList := rfl
      rw [hinsert, ih hrest, insertInto_first hfirst]
  cases hs : ofList names
  rw [hs] at hlist
  subst hlist
  rfl

end NameSet

theorem Json.Reader.strings_restores {origin : Origin} :
    (Reader.list .string).Restores Json.ofStrings origin :=
  Reader.list_restores fun _ => Reader.string_restores

theorem Json.Reader.strings_ofValue {origin inner : Origin} (henter : origin.enter = .ok inner)
    (names : List String) : Reader.list .string origin (.ofValue (.ofStrings names)) = .ok names :=
  Reader.list_ofValue henter fun s _ => Reader.string_ofValue inner s

namespace Transition

theorem proper_fields : fields.Proper where
  distinct := by decide
  lenient := ⟨fun _ h => h, fun _ h => h, fun _ h => h, fun _ h => h, fun _ h => h, fun _ h => h,
    trivial⟩

/-- How the fields of a transition are written. -/
def writers : Writers [List String, String, String, List String, List String, List String] :=
  (.ofStrings, .string, .string, .ofStrings, .ofStrings, .ofStrings, ())

/-- A transition needs two levels: its own and that of its lists. -/
theorem reader_restores {origin : Origin} (room : origin.Allows 2) :
    reader.Restores toJson origin := by
  refine Reader.record_restores proper_fields writers (fun {inner} henter => ?_) fun _ => rfl
  obtain ⟨deeper, hdeeper, -⟩ := (room.inner henter).enter
  have names {name : String} : (Field.defaulted name (.list .string) []).Restores .ofStrings inner :=
    Field.restores_defaulted Reader.strings_restores (Reader.strings_ofValue hdeeper [])
  exact ⟨Field.restores_required Reader.strings_restores,
    Field.restores_required Reader.string_restores, Field.restores_required Reader.string_restores,
    names, names, names, trivial⟩

/-- The values of the fields of a transition. -/
def row (t : Transition) :
    Json.Row [List String, String, String, List String, List String, List String] :=
  (t.sources, t.target, t.event, t.guards, t.beforeHooks, t.afterHooks, ())

theorem toJson_eq (t : Transition) : t.toJson = .ofFields (fields.written writers t.row) := rfl

theorem reader_ofValue {origin : Origin} (room : origin.Allows 2) (t : Transition) :
    reader origin (.ofValue t.toJson) = .ok t := by
  obtain ⟨inner, henter, hroom⟩ := room.enter
  obtain ⟨deeper, hdeeper, -⟩ := hroom.enter
  have restored : fields.Restored inner writers t.row :=
    ⟨Reader.strings_ofValue hdeeper _, Reader.string_ofValue inner _, Reader.string_ofValue inner _,
      Reader.strings_ofValue hdeeper _, Reader.strings_ofValue hdeeper _,
      Reader.strings_ofValue hdeeper _, trivial⟩
  rw [toJson_eq]
  exact Reader.record_restored proper_fields.distinct henter restored

/-- A transition is written exactly, as it holds nothing but texts. -/
theorem exact (t : Transition) : t.toJson.Exact := by
  refine (Json.exact_ofFields (by simp)).2 fun field hfield => ?_
  simp only [List.mem_cons, List.not_mem_nil, or_false] at hfield
  rcases hfield with rfl | rfl | rfl | rfl | rfl | rfl <;>
    first | trivial | exact Json.exact_ofStrings _

end Transition

namespace Definition

theorem proper_fields : fields.Proper where
  distinct := by decide
  lenient := ⟨fun _ h => h, fun _ h => h, fun _ h => h, fun _ h => h, fun _ h => h, fun _ h => h,
    trivial⟩

/-- How the fields of a definition are written. -/
def writers : Writers [String, String, String, List String, List Transition, Metadata] :=
  (.string, .string, .string, .ofStrings, fun ts => .array (ts.map Transition.toJson),
    Metadata.toJson, ())

/-- A definition needs one more level than its transitions. -/
theorem restores_fields {inner : Origin} (room : inner.Allows 3) : fields.Restores inner writers := by
  obtain ⟨deeper, hdeeper, -⟩ := room.enter
  have htransitions : (Reader.list Transition.reader).Restores
      (fun ts => .array (ts.map Transition.toJson)) inner :=
    Reader.list_restores fun henter => Transition.reader_restores (room.inner henter)
  have hmetadata : Metadata.reader inner (.ofValue Metadata.empty.toJson) = .ok .empty :=
    Metadata.reader_ofValue hdeeper (Metadata.kept_empty deeper)
  exact ⟨Field.restores_defaulted Reader.string_restores (Reader.string_ofValue inner ""),
    Field.restores_required Reader.string_restores, Field.restores_required Reader.string_restores,
    Field.restores_required Reader.strings_restores, Field.restores_required htransitions,
    Field.restores_defaulted Metadata.reader_restores hmetadata, trivial⟩

/-- The values of the fields of a definition. -/
def row (d : Definition) : Json.Row [String, String, String, List String, List Transition, Metadata] :=
  (d.name, d.entityType, d.initialState, d.states.toList, d.transitions, d.metadata, ())

/-- Every field of the definition is read from what is written of it inside of a text. -/
def Kept (d : Definition) : Prop :=
  ∃ inner, Origin.enter (.text Json.maxDepth) = .ok inner ∧ fields.Restored inner writers d.row

/-- A definition that was read from a text is kept. -/
theorem kept_of_ofText {d : Definition} {s : String} (h : reader.ofText s = .ok d) : d.Kept := by
  obtain ⟨scan, hscan⟩ := Reader.ofText_ok h
  have room : Origin.Allows 4 (.text Json.maxDepth) := show 4 ≤ Json.maxDepth by decide
  obtain ⟨inner, ⟨name, entityType, initialState, states, transitions, metadata, ⟨⟩⟩, henter,
    restored, rfl⟩ := Reader.restored_of_record proper_fields
      (fun henter => restores_fields (room.inner henter)) hscan
  obtain ⟨deeper, hdeeper, -⟩ := (room.inner henter).enter
  obtain ⟨hname, hentityType, hinitialState, -, hrest⟩ := restored
  -- the states were read in any order and are written in ascending order
  have hstates := Reader.strings_ofValue hdeeper (NameSet.ofList states).toList
  exact ⟨inner, henter, hname, hentityType, hinitialState, hstates, hrest⟩

/-- A definition is read from its own text. -/
theorem Kept.ofText_print {d : Definition} (h : d.Kept) (exact : d.toJson.Exact) :
    reader.ofText d.toJson.print = .ok d := by
  obtain ⟨inner, henter, restored⟩ := h
  refine Reader.ofText_print exact ?_
  refine (Reader.record_restored proper_fields.distinct henter restored).trans ?_
  show Except.ok (Definition.mk d.name d.entityType d.initialState (.ofList d.states.toList)
    d.transitions d.metadata) = .ok d
  rw [NameSet.ofList_toList]

/-! ## Definitions without metadata -/

/-- A definition without metadata is kept, whatever else is in it. -/
theorem kept_plain (d : Definition) (h : d.metadata = .empty) : d.Kept := by
  have room : Origin.Allows 4 (.text Json.maxDepth) := show 4 ≤ Json.maxDepth by decide
  obtain ⟨inner, henter, hinner⟩ := room.enter
  obtain ⟨deeper, hdeeper, hroom⟩ := hinner.enter
  have htransitions : Reader.list Transition.reader inner
      (.ofValue (.array (d.transitions.map Transition.toJson))) = .ok d.transitions :=
    Reader.list_ofValue hdeeper fun t _ => Transition.reader_ofValue hroom t
  have hmetadata : Metadata.reader inner (.ofValue d.metadata.toJson) = .ok d.metadata := by
    rw [h]
    exact Metadata.reader_ofValue hdeeper (Metadata.kept_empty deeper)
  exact ⟨inner, henter, Reader.string_ofValue inner d.name, Reader.string_ofValue inner d.entityType,
    Reader.string_ofValue inner d.initialState, Reader.strings_ofValue hdeeper d.states.toList,
    htransitions, hmetadata, trivial⟩

/-- Without metadata a definition is written exactly. -/
theorem exact_plain (d : Definition) (h : d.metadata = .empty) : d.toJson.Exact := by
  refine (Json.exact_ofFields (by simp)).2 fun field hfield => ?_
  simp only [List.mem_cons, List.not_mem_nil, or_false] at hfield
  rcases hfield with rfl | rfl | rfl | rfl | rfl | rfl
  · trivial
  · trivial
  · trivial
  · exact Json.exact_ofStrings _
  · refine Json.exactItems_iff.2 fun v hv => ?_
    obtain ⟨t, -, rfl⟩ := List.mem_map.1 hv
    exact t.exact
  · rw [h]
    trivial

end Definition

end WorkflowRules
