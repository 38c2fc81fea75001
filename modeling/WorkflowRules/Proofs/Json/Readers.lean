import WorkflowRules.Proofs.Json.Records

/-!
# Reading what was read and written

What was read by a reader, wherever it came from, is read again from what is written of it. For a
record this follows from the same fact about each of its fields.

* `Reader.Restores` — a reader and a way of writing that belong together
* `Reader.list_restores`, `Reader.fields_restores` — arrays of any length, objects with any fields
* `FieldList.Restored` — the values of fields that are read from what is written of them
* `Reader.record_restored`, `Reader.restored_of_record` — records
* `Reader.ofText_print` — texts
-/

namespace WorkflowRules.Json

/-- There is room for so many nested containers. -/
def Origin.Allows (n : Nat) : Origin → Prop
  | .text room => n ≤ room
  | .value => True

/-- Where at least one more level is allowed, it can be entered, and the rest is allowed inside. -/
theorem Origin.Allows.enter {n : Nat} {origin : Origin} (h : origin.Allows (n + 1)) :
    ∃ inner, origin.enter = .ok inner ∧ inner.Allows n := by
  rcases origin with (_ | room) | _
  · cases h
  · exact ⟨.text room, rfl, Nat.le_of_succ_le_succ h⟩
  · exact ⟨.value, rfl, trivial⟩

theorem Origin.Allows.inner {n : Nat} {origin inner : Origin} (h : origin.Allows (n + 1))
    (henter : origin.enter = .ok inner) : inner.Allows n := by
  obtain ⟨other, hother, hn⟩ := h.enter
  cases hother.symm.trans henter
  exact hn

/-- What was read from a scan is read from what is written of it as well. -/
def Reader.Restores {α : Type} (r : Reader α) (write : α → Json) (origin : Origin) : Prop :=
  ∀ ⦃scan a⦄, r origin scan = .ok a → r origin (.ofValue (write a)) = .ok a

namespace Reader

variable {α : Type} {r : Reader α} {write : α → Json} {origin inner : Origin}

/-! ## Single values -/

theorem string_ofValue (origin : Origin) (s : String) : string origin (.ofValue (.string s)) = .ok s := by
  rw [Scan.ofValue]
  rfl

theorem bool_ofValue (origin : Origin) (b : Bool) : bool origin (.ofValue (.bool b)) = .ok b := by
  rw [Scan.ofValue]
  rfl

theorem int_ofValue {low high n : Int} (hlow : minInteger ≤ low) (hhigh : high ≤ maxInteger)
    (hn : low ≤ n ∧ n ≤ high) : int low high origin (.ofValue (.ofInt n)) = .ok n := by
  have hrange : minInteger ≤ n ∧ n ≤ maxInteger := ⟨hlow.trans hn.1, hn.2.trans hhigh⟩
  rw [ofInt, Number.ofInt, dif_pos hrange, Scan.ofValue, int]
  exact if_pos hn

/-- An integer that was read lies between the bounds. -/
theorem int_ok {low high n : Int} {scan : Scan} (h : int low high origin scan = .ok n) :
    low ≤ n ∧ n ≤ high := by
  unfold int at h
  split at h
  · split at h
    · next hn => exact Except.ok.inj h ▸ hn
    · cases h
  · cases h

theorem string_restores : string.Restores .string origin := fun _ _ _ => string_ofValue origin _

theorem bool_restores : bool.Restores .bool origin := fun _ _ _ => bool_ofValue origin _

theorem int_restores {low high : Int} (hlow : minInteger ≤ low) (hhigh : high ≤ maxInteger) :
    (int low high).Restores .ofInt origin :=
  fun _ _ h => int_ofValue hlow hhigh (int_ok h)

/-- Any value at all is read, as long as it fits. -/
theorem any_ok {scan : Scan} {j : Json} (h : any origin scan = .ok j) :
    scan.toValue? origin.room = some j := by
  unfold any at h
  split at h
  · next v hv => rwa [← Except.ok.inj h]
  · cases h

theorem any_ofValue {j : Json} (h : Fits origin.room j) : any origin (.ofValue j) = .ok j := by
  unfold any
  rw [show (Scan.ofValue j).toValue? origin.room = some j from h]

/-! ## Arrays -/

/-- Items that are read back one by one are read back together. -/
theorem items_ofItems {as : List α} (h : ∀ a ∈ as, r origin (.ofValue (write a)) = .ok a) :
    items r origin .closed (Scan.ofItems (as.map write)) = .ok as := by
  induction as with
  | nil => rfl
  | cons a rest ih =>
    rw [List.map_cons, Scan.ofItems, items, h a List.mem_cons_self,
      ih fun b hb => h b (List.mem_cons_of_mem _ hb)]
    rfl

/-- Each item that was read came from a part of what was written. -/
theorem items_ok {ending : Ending} {scans : List Scan} {as : List α}
    (h : items r origin ending scans = .ok as) : ∀ a ∈ as, ∃ scan, r origin scan = .ok a := by
  induction scans generalizing as with
  | nil =>
    rw [items] at h
    split at h
    · cases h
      simp
    · cases h
  | cons scan rest ih =>
    rw [items] at h
    obtain ⟨a, ha, h⟩ := ok_of_bind h
    obtain ⟨others, hothers, h⟩ := ok_of_bind h
    cases h
    exact List.forall_mem_cons.2 ⟨⟨scan, ha⟩, ih hothers⟩

theorem list_ofValue (henter : origin.enter = .ok inner) {as : List α}
    (h : ∀ a ∈ as, r inner (.ofValue (write a)) = .ok a) :
    list r origin (.ofValue (.array (as.map write))) = .ok as := by
  rw [Scan.ofValue, list, henter]
  exact items_ofItems h

/-- Where a list was read, there was room for its level. -/
theorem list_ok {scan : Scan} {as : List α} (h : list r origin scan = .ok as) :
    ∃ inner, origin.enter = .ok inner ∧ ∀ a ∈ as, ∃ item, r inner item = .ok a := by
  cases scan with
  | array scans ending =>
    obtain ⟨inner, henter, h⟩ := ok_of_bind h
    exact ⟨inner, henter, items_ok h⟩
  | _ => cases h

/-- Lists are read back as they were written when their items are. -/
theorem list_restores (h : ∀ {inner}, origin.enter = .ok inner → r.Restores write inner) :
    (list r).Restores (fun as => .array (as.map write)) origin := by
  intro scan as hread
  obtain ⟨inner, henter, hitems⟩ := list_ok hread
  refine list_ofValue henter fun a ha => ?_
  obtain ⟨item, hitem⟩ := hitems a ha
  exact h henter hitem

/-! ## Objects with any fields -/

/-- Fields that were read are the fields of the object, put in order. -/
theorem fieldsOf_ok {ending : Ending} {before after : Fields}
    {scans : List (Option String × Scan)} (h : fieldsOf origin ending before scans = .ok after) :
    Scan.toFields? origin.room before scans = some after := by
  induction scans generalizing before with
  | nil =>
    rw [fieldsOf] at h
    split at h
    · rw [Scan.toFields?, Except.ok.inj h]
    · cases h
  | cons field rest ih =>
    obtain ⟨_ | name, scan⟩ := field
    · cases h
    obtain ⟨v, hv, h⟩ := ok_of_bind h
    rw [Scan.toFields?, any_ok hv]
    exact ih h

/-- An object is read with all of its fields. -/
theorem fieldsOf_of_toFields? {before after : Fields} {scans : List (Option String × Scan)}
    (h : Scan.toFields? origin.room before scans = some after) :
    fieldsOf origin .closed before scans = .ok after := by
  induction scans generalizing before with
  | nil =>
    rw [Scan.toFields?] at h
    rw [fieldsOf, if_pos rfl, Option.some.inj h]
  | cons field rest ih =>
    obtain ⟨_ | name, scan⟩ := field
    · simp [Scan.toFields?] at h
    rw [Scan.toFields?] at h
    split at h
    · next v hv =>
      rw [fieldsOf, any, hv]
      exact ih h
    · cases h

theorem fields_ofValue (henter : origin.enter = .ok inner) {fs : Fields} (ascending : fs.Ascending)
    (h : ∀ field ∈ fs, Fits inner.room field.2) :
    Reader.fields origin (.ofValue (.object fs)) = .ok fs := by
  rw [Scan.ofValue, Reader.fields, henter]
  exact fieldsOf_of_toFields? (toFields?_ofFields h ascending)

/-- Objects in order are read back as they were written. -/
theorem fields_restores : Reader.fields.Restores .object origin := by
  intro scan fs h
  cases scan with
  | object scans ending =>
    obtain ⟨inner, henter, h⟩ := ok_of_bind h
    obtain ⟨hfits, ascending⟩ :=
      fits_of_toFields? (fieldsOf_ok h) (by simp) Fields.ascending_nil
    exact fields_ofValue henter ascending hfits
  | _ => cases h

end Reader

/-! ## Fields of records -/

/-- A way of writing for the value of each field. -/
def Writers : List Type → Type
  | [] => Unit
  | α :: ts => (α → Json) × Writers ts

/-- The value of a field is read from what is written of it, whether it was read or is the default. -/
structure Field.Restores {α : Type} (field : Field α) (write : α → Json) (origin : Origin) :
    Prop where
  read : field.read.Restores write origin
  absent : ∀ {a}, field.absent = some a → field.read origin (.ofValue (write a)) = .ok a

theorem Field.restores_required {α : Type} {name : String} {r : Reader α} {write : α → Json}
    {origin : Origin} (h : r.Restores write origin) :
    (Field.required name r).Restores write origin :=
  ⟨h, fun habsent => by cases habsent⟩

theorem Field.restores_defaulted {α : Type} {name : String} {r : Reader α} {write : α → Json}
    {value : α} {origin : Origin} (h : r.Restores write origin)
    (hvalue : r origin (.ofValue (write value)) = .ok value) :
    (Field.defaulted name r value).Restores write origin :=
  ⟨h, fun habsent => Option.some.inj habsent ▸ hvalue⟩

namespace FieldList

/-- What is written of the values of fields. -/
def written : {ts : List Type} → FieldList ts → Writers ts → Row ts → List (String × Json)
  | [], .nil, (), () => []
  | _ :: _, .cons field rest, (write, writers), (a, row) =>
    (field.name, write a) :: rest.written writers row

/-- Every value is read from what is written of it. -/
def Restored (origin : Origin) : {ts : List Type} → FieldList ts → Writers ts → Row ts → Prop
  | [], .nil, (), () => True
  | _ :: _, .cons field rest, (write, writers), (a, row) =>
    field.read origin (.ofValue (write a)) = .ok a ∧ rest.Restored origin writers row

/-- Every field reads what was read before and written. -/
def Restores (origin : Origin) : {ts : List Type} → FieldList ts → Writers ts → Prop
  | [], .nil, () => True
  | _ :: _, .cons field rest, (write, writers) =>
    field.Restores write origin ∧ rest.Restores origin writers

variable {ts : List Type} {fs : FieldList ts} {writers : Writers ts} {origin : Origin} {given : Given}

/-- Fields that restore what they read restore a whole row of them. -/
theorem Restores.restored (h : fs.Restores origin writers) {row : Row ts}
    (reads : fs.Reads origin given row) : fs.Restored origin writers row := by
  induction fs with
  | nil => trivial
  | cons field rest ih =>
    obtain ⟨a, row⟩ := row
    refine ⟨?_, ih h.2 reads.2⟩
    rcases reads.1.cases with ⟨v, -, hv⟩ | habsent
    · exact h.1.read hv
    · exact h.1.absent habsent

theorem names_written (fs : FieldList ts) (writers : Writers ts) (row : Row ts) :
    (fs.written writers row).map (·.1) = fs.names := by
  induction fs with
  | nil => rfl
  | cons field rest ih => exact congrArg (field.name :: ·) (ih writers.2 row.2)

/-- A row that is given as it was written is read again. -/
theorem Restored.reads {row : Row ts} (h : fs.Restored origin writers row)
    (hgiven : ∀ field ∈ fs.written writers row, given field.1 = some (.ofValue field.2)) :
    fs.Reads origin given row := by
  induction fs with
  | nil => trivial
  | cons field rest ih =>
    obtain ⟨a, row⟩ := row
    refine ⟨Field.reads_of_given (hgiven _ List.mem_cons_self) h.1, ih h.2 fun other hother => ?_⟩
    exact hgiven other (List.mem_cons_of_mem _ hother)

end FieldList

/-- Where no name is given twice, each field is found under its name. -/
theorem Fields.get?_eq_some {fields : Fields} (distinct : (fields.map (·.1)).Nodup)
    {field : String × Json} (h : field ∈ fields) : fields.get? field.1 = some field.2 := by
  induction fields with
  | nil => cases h
  | cons first rest ih =>
    obtain ⟨hfirst, distinct⟩ := List.nodup_cons.1 distinct
    rcases List.mem_cons.1 h with rfl | h
    · exact if_pos rfl
    · have hne : first.1 ≠ field.1 := fun heq => hfirst (List.mem_map.2 ⟨field, h, heq.symm⟩)
      exact (if_neg hne).trans (ih distinct h)

/-- What is found under a name is a field of that name. -/
theorem Fields.mem_of_get? {fields : Fields} {name : String} {j : Json}
    (h : fields.get? name = some j) : (name, j) ∈ fields := by
  induction fields with
  | nil => cases h
  | cons first rest ih =>
    rw [get?] at h
    split at h
    · next hname =>
      cases h
      exact hname ▸ List.mem_cons_self
    · exact List.mem_cons_of_mem _ (ih h)

/-- Fields with different names are given as they are written. -/
theorem Fields.given_ofList {fields : List (String × Json)} (distinct : (fields.map (·.1)).Nodup)
    {field : String × Json} (h : field ∈ fields) :
    (ofList fields).given field.1 = some (.ofValue field.2) := by
  rw [given, get?_ofList distinct, get?_eq_some distinct h]
  rfl

/-! ## Records -/

namespace Reader

variable {α : Type} {ts : List Type} {fs : FieldList ts} {build : Row ts → α} {writers : Writers ts}
  {origin inner : Origin}

/-- A record is read from an object with what is written of its fields. -/
theorem record_restored (distinct : fs.names.Nodup) (henter : origin.enter = .ok inner)
    {row : Row ts} (h : fs.Restored inner writers row) :
    Reader.record fs build origin (.ofValue (.ofFields (fs.written writers row))) =
      .ok (build row) := by
  refine record_object distinct henter (Fields.ascending_ofList _) (h.reads fun field hfield => ?_)
  refine Fields.given_ofList ?_ hfield
  rwa [FieldList.names_written]

/-- The values of the fields of a record that was read. -/
theorem restored_of_record (proper : fs.Proper)
    (restores : ∀ {inner}, origin.enter = .ok inner → fs.Restores inner writers) {scan : Scan} {a : α}
    (h : Reader.record fs build origin scan = .ok a) :
    ∃ inner row, origin.enter = .ok inner ∧ fs.Restored inner writers row ∧ a = build row := by
  obtain ⟨inner, given, row, henter, reads, -, ha⟩ := record_ok proper h
  exact ⟨inner, row, henter, (restores henter).restored reads, ha⟩

/-- A record is read back as it was written when each of its fields is. -/
theorem record_restores (proper : fs.Proper) (writers : Writers ts)
    (restores : ∀ {inner}, origin.enter = .ok inner → fs.Restores inner writers) {write : α → Json}
    (hwrite : ∀ row, write (build row) = .ofFields (fs.written writers row)) :
    (Reader.record fs build).Restores write origin := by
  intro scan a h
  obtain ⟨inner, row, henter, restored, rfl⟩ := restored_of_record proper restores h
  rw [hwrite]
  exact record_restored proper.distinct henter restored

end Reader

/-! ## Texts -/

/-- A value that was read from a text was read from the scan of that text. -/
theorem Reader.ofText_ok {α : Type} {r : Reader α} {s : String} {a : α} (h : r.ofText s = .ok a) :
    ∃ scan, r (.text maxDepth) scan = .ok a := by
  unfold Reader.ofText at h
  dsimp only at h
  split at h
  · cases h
  · next b hb =>
    split at h
    · exact ⟨_, Except.ok.inj h ▸ hb⟩
    · cases h

/-- What is read from a value is read from the text of the value, too. -/
theorem Reader.ofText_print {α : Type} {r : Reader α} {j : Json} {a : α} (exact : j.Exact)
    (h : r (.text maxDepth) (.ofValue j) = .ok a) : r.ofText j.print = .ok a := by
  unfold Reader.ofText
  rw [Document.ofText_print exact]
  simp only [h, if_true]

/-- The numbers of an object are those of its fields. -/
theorem exact_ofFields {fields : List (String × Json)} (distinct : (fields.map (·.1)).Nodup) :
    (Json.ofFields fields).Exact ↔ ∀ field ∈ fields, field.2.Exact := by
  rw [Json.ofFields, Exact, exactFields_iff]
  constructor
  · intro h field hfield
    have hget := (Fields.get?_ofList distinct field.1).trans (Fields.get?_eq_some distinct hfield)
    exact h _ (Fields.mem_of_get? hget)
  · exact fun h field hfield => h field (Fields.mem_ofList hfield)

theorem exact_ofInt {n : Int} (h : minInteger ≤ n ∧ n ≤ maxInteger) : (ofInt n).Exact := by
  rw [ofInt, Number.ofInt, dif_pos h, Exact]
  exact Number.readsBack_integer n h

theorem exact_ofStrings (ss : List String) : (ofStrings ss).Exact := by
  refine exactItems_iff.2 fun v hv => ?_
  obtain ⟨s, -, rfl⟩ := List.mem_map.1 hv
  trivial

end WorkflowRules.Json
