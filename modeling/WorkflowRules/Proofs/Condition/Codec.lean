import WorkflowRules.Condition.Codec
import WorkflowRules.Proofs.Json.Readers

/-!
# Conditions are read back

A condition is read twice from one scan, as a group and as a leaf, while the depth of the scan is
that of a value of any shape. What was read is written as a value of no greater depth, and a leaf is
never taken for a group, because no leaf has members.

* `Condition.Kept` — the conditions that are read back with so much room
* `Condition.kept_of_ofScan?` — whatever was read is one, by induction on the scan
* `Condition.reader_restores`
-/

namespace WorkflowRules

open Json (Scan Reader Origin Fields FieldList Fits Writers)
open Json.Scan (Room)

namespace Json.Scan

/-- Where items are read as a whole, each of them can be read. -/
theorem toItems?_part {room : Room} {part : Scan} {vs : List Scan} {js : List Json}
    (h : toItems? room vs = some js) (hmem : part ∈ vs) : ∃ v, part.toValue? room = some v := by
  induction vs generalizing js with
  | nil => cases hmem
  | cons first rest ih =>
    rw [toItems?] at h
    split at h
    · next v rs hv hrs =>
      rcases List.mem_cons.1 hmem with rfl | hmem
      · exact ⟨v, hv⟩
      · exact ih hrs hmem
    · cases h

/-- Where fields are read as a whole, the value of each of them can be read. -/
theorem toFields?_part {room : Room} {part : Scan} {fs : List (Option String × Scan)}
    {before after : Fields} (h : toFields? room before fs = some after) (hmem : part ∈ fs.map (·.2)) :
    ∃ v, part.toValue? room = some v := by
  induction fs generalizing before with
  | nil => cases hmem
  | cons first rest ih =>
    obtain ⟨_ | name, w⟩ := first
    · simp [toFields?] at h
    rw [toFields?] at h
    split at h
    · next v hv =>
      rcases List.mem_cons.1 hmem with rfl | hmem
      · exact ⟨v, hv⟩
      · exact ih h hmem
    · cases h

end Json.Scan

/-- A part of a container can be read when the container can be. -/
theorem Json.Scan.toValue?_part {room inner : Room} (henter : room.enter? = some inner)
    {scan part : Scan} {j : Json} (h : scan.toValue? room = some j) (hpart : part ∈ scan.parts) :
    ∃ v, part.toValue? inner = some v := by
  cases scan with
  | array vs ending =>
    obtain ⟨deeper, js, hdeeper, -, hvs, -⟩ := toValue?_array.1 h
    cases hdeeper.symm.trans henter
    exact toItems?_part hvs hpart
  | object fs ending =>
    obtain ⟨deeper, js, hdeeper, -, hfs, -⟩ := toValue?_object.1 h
    cases hdeeper.symm.trans henter
    exact toFields?_part hfs hpart
  | _ => cases hpart

/-! ## Leaves -/

namespace Comparison

theorem proper_fields : fields.Proper where
  distinct := by decide
  lenient := ⟨fun _ h => h, fun _ h => h, fun _ h => h, trivial⟩

/-- How the fields of a leaf are written. -/
def writers : Writers [String, String, Json] := (.string, .string, id, ())

theorem toJson_eq (c : Comparison) :
    c.toJson = .ofFields (fields.written writers (c.field, c.operator, c.value, ())) := rfl

theorem reader_ofValue {c : Comparison} (h : Fits none c.value) :
    reader .value (.ofValue c.toJson) = .ok c := by
  rw [toJson_eq]
  have restored : fields.Restored .value writers (c.field, c.operator, c.value, ()) :=
    ⟨Reader.string_ofValue .value _, Reader.string_ofValue .value _, Reader.any_ofValue h, trivial⟩
  exact Reader.record_restored proper_fields.distinct rfl restored

/-- The value of a leaf has come from a part of what the leaf was read from. -/
theorem fits_of_reader {room inner : Room} (henter : room.enter? = some inner) {scan : Scan} {j : Json}
    {c : Comparison} (hscan : scan.toValue? room = some j) (h : reader .value scan = .ok c) :
    Fits inner c.value := by
  obtain ⟨origin, given, ⟨field, operator, value, ⟨⟩⟩, horigin, ⟨-, -, hvalue, -⟩, hparts, rfl⟩ :=
    Reader.record_ok proper_fields h
  cases horigin
  rcases hvalue.cases with ⟨part, hgiven, hread⟩ | habsent
  · obtain ⟨v, hv⟩ := Scan.toValue?_part henter hscan (hparts _ _ hgiven)
    have heq := (Json.toValue?_unlimited hv).symm.trans (Reader.any_ok hread)
    exact Option.some.inj heq ▸ Json.fits_of_toValue? hv
  · cases habsent
    exact Json.fits_null inner

/-- A comparison is an object, so that it takes up a level. -/
theorem enter_of_reader {room : Room} {scan : Scan} {j : Json} {c : Comparison}
    (hscan : scan.toValue? room = some j) (h : reader .value scan = .ok c) :
    ∃ inner, room.enter? = some inner := by
  cases scan with
  | array vs ending =>
    obtain ⟨inner, -, henter, -⟩ := Json.toValue?_array.1 hscan
    exact ⟨inner, henter⟩
  | object fs ending =>
    obtain ⟨inner, -, henter, -⟩ := Json.toValue?_object.1 hscan
    exact ⟨inner, henter⟩
  | _ => cases h

end Comparison

namespace Condition

/-- A condition that is read back with so much room. -/
structure Kept (room : Room) (c : Condition) : Prop where
  fits : Fits room c.toJson
  reads : ofScan? (.ofValue c.toJson) = some c

/-! ## What is read of what was written -/

theorem toJsonAll_eq (cs : List Condition) : toJsonAll cs = cs.map toJson := by
  induction cs with
  | nil => rfl
  | cons c rest ih => rw [toJsonAll, ih, List.map_cons]

theorem cases_name (connective : Connective) :
    Reader.cases Connective.names .value (.string (some connective.name)) = .ok connective := by
  cases connective <;> rfl

/-- Members that were written are read back, in their order. -/
theorem membersOfItems?_ofItems {room : Room} {cs : List Condition} (h : ∀ c ∈ cs, Kept room c) :
    membersOfItems? (Scan.ofItems (toJsonAll cs)) = some cs := by
  induction cs with
  | nil => rw [toJsonAll, Scan.ofItems, membersOfItems?]
  | cons c rest ih =>
    rw [toJsonAll, Scan.ofItems, membersOfItems?, (h c List.mem_cons_self).reads,
      ih fun d hd => h d (List.mem_cons_of_mem _ hd)]

/-- The fields of a group are written in ascending order. -/
theorem groupFields_eq (connective : Connective) (members : List Condition) :
    (group connective members).toJson = .object
      [("conditions", .array (toJsonAll members)), ("operator", .string connective.name)] := by
  have hlt : "conditions" < "operator" := by decide
  simp [toJson, Json.ofFields, Fields.ofList, Fields.insert, hlt]

/-- A comparison is written with its three fields. -/
theorem leafFields_eq (c : Comparison) :
    (leaf c).toJson = .object
      [("field", .string c.field), ("operator", .string c.operator), ("value", c.value)] := by
  have ascending : (["field", "operator", "value"] : List String).Pairwise (· < ·) := by decide
  exact congrArg Json.object (Fields.ofList_ascending ascending)

/-- A group is kept where there is room for two more levels and its members are kept inside. -/
theorem kept_group {room inner deeper : Room} (henter : room.enter? = some inner)
    (hdeeper : inner.enter? = some deeper) (connective : Connective) {members : List Condition}
    (h : ∀ c ∈ members, Kept deeper c) : Kept room (.group connective members) where
  fits := by
    refine Json.fits_object henter (Fields.ascending_ofList _) fun field hfield => ?_
    have hmem := Fields.mem_ofList hfield
    simp only [List.mem_cons, List.not_mem_nil, or_false] at hmem
    rcases hmem with rfl | rfl
    · exact Json.fits_string inner _
    · refine Json.fits_array hdeeper fun j hj => ?_
      rw [toJsonAll_eq] at hj
      obtain ⟨c, hc, rfl⟩ := List.mem_map.1 hj
      exact (h c hc).fits
  reads := by
    have hmembers : membersOfScan? (.array (Scan.ofItems (toJsonAll members)) .closed) =
        some members := by
      rw [membersOfScan?, membersOfItems?_ofItems h]
    have hgroup : groupOfScan? (.ofValue (group connective members).toJson) =
        some (.group connective members) := by
      rw [groupFields_eq]
      simp [Scan.ofValue, Scan.ofFields, groupOfScan?, groupOfFields?, hmembers, cases_name]
    rw [ofScan?, hgroup]

/-- A leaf has no members, so it is not read as a group. -/
theorem groupOfScan?_leaf (c : Comparison) : groupOfScan? (.ofValue (leaf c).toJson) = none := by
  rw [leafFields_eq]
  simp only [Scan.ofValue, Scan.ofFields, groupOfScan?, groupOfFields?]
  cases Reader.cases Connective.names .value (.string (some c.operator)) <;> simp

/-- A comparison is kept where there is room for one more level and its value fits inside. -/
theorem kept_leaf {room inner : Room} (henter : room.enter? = some inner) {c : Comparison}
    (h : Fits inner c.value) : Kept room (.leaf c) where
  fits := by
    refine Json.fits_object henter (Fields.ascending_ofList _) fun field hfield => ?_
    have hmem := Fields.mem_ofList hfield
    simp only [List.mem_cons, List.not_mem_nil, or_false] at hmem
    rcases hmem with rfl | rfl | rfl
    · exact Json.fits_string inner _
    · exact Json.fits_string inner _
    · exact h
  reads := by
    have hread : Comparison.reader .value (.ofValue (leaf c).toJson) = .ok c :=
      Comparison.reader_ofValue h.unlimited
    rw [ofScan?, groupOfScan?_leaf, hread]
    rfl

/-! ## What was read -/

/-- Members that have been read back with the room inside of an array. -/
def MembersKept (room : Room) (members : List Condition) : Prop :=
  ∃ deeper, room.enter? = some deeper ∧ ∀ c ∈ members, Kept deeper c

/-- What was read was a group, or else a leaf. -/
theorem kept_of_group {room : Room} {scan : Scan} {j : Json} (hscan : scan.toValue? room = some j)
    (hgroup : ∀ d, groupOfScan? scan = some d → Kept room d) {c : Condition}
    (h : ofScan? scan = some c) : Kept room c := by
  rw [ofScan?] at h
  split at h
  · next d hd =>
    cases h
    exact hgroup _ hd
  · obtain ⟨comparison, hcomparison, rfl⟩ := Option.map_eq_some_iff.1 h
    have hread : Comparison.reader .value scan = .ok comparison := by
      revert hcomparison
      cases Comparison.reader .value scan <;> simp [Except.toOption]
    obtain ⟨inner, henter⟩ := Comparison.enter_of_reader hscan hread
    exact kept_leaf henter (Comparison.fits_of_reader henter hscan hread)

mutual

/-- Whatever was read as a condition is read back. -/
theorem kept_of_ofScan? {room : Room} {j : Json} {c : Condition} : ∀ {scan : Scan},
    scan.toValue? room = some j → ofScan? scan = some c → Kept room c
  | .object fields ending, hscan, h => by
    refine kept_of_group hscan (fun d hd => ?_) h
    obtain ⟨inner, after, henter, -, hfields, -⟩ := Json.toValue?_object.1 hscan
    rw [groupOfScan?] at hd
    obtain ⟨connective, members, rfl, deeper, hdeeper, hmembers⟩ :=
      kept_of_groupOfFields? hfields (fun _ hnone => by cases hnone) hd
    exact kept_group henter hdeeper connective hmembers
  | .array [op, v] ending, hscan, h => by
    refine kept_of_group hscan (fun d hd => ?_) h
    obtain ⟨inner, after, henter, -, -, -⟩ := Json.toValue?_array.1 hscan
    rw [groupOfScan?, groupOfItems?] at hd
    split at hd
    · next connective members _ hmembers =>
      cases hd
      obtain ⟨w, hw⟩ := Scan.toValue?_part henter hscan (List.mem_cons_of_mem _ List.mem_cons_self)
      obtain ⟨deeper, hdeeper, hkept⟩ := kept_of_membersOfScan? hw hmembers
      exact kept_group henter hdeeper connective hkept
    · cases hd
  | .array [] _, hscan, h | .array [_] _, hscan, h | .array (_ :: _ :: _ :: _) _, hscan, h => by
    exact kept_of_group hscan (fun d hd => by simp [groupOfScan?, groupOfItems?] at hd) h
  | .fault, hscan, h | .null, hscan, h | .bool _, hscan, h | .number _, hscan, h
  | .string _, hscan, h => by
    exact kept_of_group hscan (fun d hd => by simp [groupOfScan?] at hd) h

theorem kept_of_groupOfFields? {room : Room} {before after : Fields} {slots : GroupSlots}
    {c : Condition} : ∀ {fields : List (Option String × Scan)},
    Scan.toFields? room before fields = some after →
    (∀ members, slots.members = some members → MembersKept room members) →
    groupOfFields? slots fields = some c →
    ∃ connective members, c = .group connective members ∧ MembersKept room members
  | [], _, hslots, h => by
    obtain ⟨connective, members⟩ := slots
    cases connective with
    | none => simp [groupOfFields?] at h
    | some connective =>
      cases members with
      | none => simp [groupOfFields?] at h
      | some members =>
        rw [groupOfFields?] at h
        exact ⟨connective, members, (Option.some.inj h).symm, hslots members rfl⟩
  | (name, v) :: rest, hfields, hslots, h => by
    have hvalue : ∃ w after', v.toValue? room = some w ∧
        Scan.toFields? room after' rest = some after := by
      cases name with
      | none => simp [Scan.toFields?] at hfields
      | some name =>
        rw [Scan.toFields?] at hfields
        split at hfields
        · next w hw => exact ⟨w, _, hw, hfields⟩
        · cases hfields
    -- a field is a connective, the members, or one that a group does not know of
    obtain ⟨w, before', hw, hrest⟩ := hvalue
    rw [groupOfFields?] at h
    split at h
    · -- a connective, which says nothing of the members
      split at h
      · next con _ _ =>
        have hmembers : ∀ members, { slots with connective := some con }.members = some members →
            MembersKept room members := hslots
        exact kept_of_groupOfFields? hrest hmembers h
      · cases h
    · split at h
      · split at h
        · next members _ hmembers =>
          refine kept_of_groupOfFields? hrest (fun others hothers => ?_) h
          cases hothers
          exact kept_of_membersOfScan? hw hmembers
        · cases h
      · exact kept_of_groupOfFields? hrest hslots h

theorem kept_of_membersOfScan? {room : Room} {j : Json} {members : List Condition} :
    ∀ {scan : Scan}, scan.toValue? room = some j → membersOfScan? scan = some members → MembersKept room members
  | .array items ending, hscan, h => by
    obtain ⟨deeper, after, hdeeper, -, hitems, -⟩ := Json.toValue?_array.1 hscan
    rw [membersOfScan?] at h
    exact ⟨deeper, hdeeper, kept_of_membersOfItems? hitems h⟩
  | .fault, _, h | .null, _, h | .bool _, _, h | .number _, _, h | .string _, _, h
  | .object _ _, _, h => by
    simp [membersOfScan?] at h

theorem kept_of_membersOfItems? {room : Room} {js : List Json} {members : List Condition} :
    ∀ {items : List Scan}, Scan.toItems? room items = some js →
    membersOfItems? items = some members → ∀ c ∈ members, Kept room c
  | [], _, h => by
    rw [membersOfItems?] at h
    cases h
    simp
  | v :: rest, hitems, h => by
    rw [Scan.toItems?] at hitems
    rw [membersOfItems?] at h
    split at hitems
    · next w ws hw hws =>
      split at h
      · next c cs hc hcs =>
        cases h
        exact List.forall_mem_cons.2 ⟨kept_of_ofScan? hw hc, kept_of_membersOfItems? hws hcs⟩
      · cases h
    · cases hitems

end

/-- A condition that was read is kept where it was read. -/
theorem kept_of_reader {origin : Origin} {scan : Scan} {c : Condition}
    (h : reader origin scan = .ok c) : Kept origin.room c := by
  unfold reader at h
  split at h
  · cases h
  · next j hj =>
    split at h
    · next d hd => exact Except.ok.inj h ▸ kept_of_ofScan? hj hd
    · cases h

theorem reader_ofValue {origin : Origin} {c : Condition} (h : Kept origin.room c) :
    reader origin (.ofValue c.toJson) = .ok c := by
  have hfits : (Scan.ofValue c.toJson).toValue? origin.room = some c.toJson := h.fits
  rw [reader, hfits]
  simp only [h.reads]

theorem reader_restores {origin : Origin} : reader.Restores toJson origin :=
  fun _ _ h => reader_ofValue (kept_of_reader h)

end Condition

end WorkflowRules
