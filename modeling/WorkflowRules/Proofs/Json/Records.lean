import Mathlib.Logic.Function.Basic
import WorkflowRules.Json.Record
import WorkflowRules.Proofs.Except
import WorkflowRules.Proofs.Json.Fits

/-!
# Reading records

What a record is read as depends only on what is given for the names of its fields, whether they are
given in an object of any order or in an array.

* `FieldList.Reads` — the values that the fields take from what is given for their names
* `Reader.record_ok` — what was read as a record
* `Reader.record_object` — reading a record from an object that was written in ascending order
-/

namespace WorkflowRules.Json

/-- What is given for a name. -/
abbrev Given := String → Option Scan

/-- What an object gives for a name. -/
def Fields.given (fs : Fields) : Given := fun name => (fs.get? name).map Scan.ofValue

namespace Fields

theorem given_cons_self (name : String) (j : Json) (rest : Fields) :
    given ((name, j) :: rest) name = some (Scan.ofValue j) := by
  simp [given, get?]

theorem given_cons_of_ne {name other : String} (j : Json) (h : name ≠ other) {rest : Fields} :
    given ((name, j) :: rest) other = given rest other := by
  simp [given, get?, h]

theorem given_eq_none {fs : Fields} {name : String} (h : ∀ field ∈ fs, field.1 ≠ name) :
    given fs name = none := by
  induction fs with
  | nil => rfl
  | cons field rest ih =>
    rw [given_cons_of_ne _ (h field List.mem_cons_self)]
    exact ih fun other hother => h other (List.mem_cons_of_mem _ hother)

theorem get?_eq_none {fs : Fields} {name : String} (h : name ∉ fs.map (·.1)) :
    fs.get? name = none := by
  induction fs with
  | nil => rfl
  | cons field rest ih =>
    obtain ⟨hfirst, hrest⟩ := not_or.1 (fun hmem => h (List.mem_cons.2 hmem))
    rw [get?, if_neg (Ne.symm hfirst), ih hrest]

/-- Where no name is given twice, the order of insertion does not matter to what is found. -/
theorem get?_foldl {fields : List (String × Json)} (distinct : (fields.map (·.1)).Nodup)
    (name : String) (before : Fields) :
    get? name (fields.foldl (fun fs field => insert field.1 field.2 fs) before) =
      (get? name fields).or (get? name before) := by
  induction fields generalizing before with
  | nil => rfl
  | cons field rest ih =>
    obtain ⟨hfirst, distinct⟩ := List.nodup_cons.1 distinct
    rw [List.foldl_cons, ih distinct, get?]
    by_cases hname : field.1 = name
    · subst hname
      rw [if_pos rfl, get?_eq_none hfirst, get?_insert_self]
      rfl
    · rw [if_neg hname, get?_insert_of_ne _ _ (Ne.symm hname)]

/-- Sorting fields with different names does not change what they are found as. -/
theorem get?_ofList {fields : List (String × Json)} (distinct : (fields.map (·.1)).Nodup)
    (name : String) : get? name (ofList fields) = get? name fields :=
  (get?_foldl distinct name []).trans (Option.or_none ..)

end Fields

mutual

/-- Nothing in the scan of a value is broken. -/
theorem Scan.skippable_ofValue : ∀ j : Json, (Scan.ofValue j).skippable = true
  | .null | .bool _ | .number _ | .string _ => rfl
  | .array items => by
    rw [Scan.ofValue, Scan.skippable, Scan.skippable_ofItems items]
    rfl
  | .object fields => by
    rw [Scan.ofValue, Scan.skippable, Scan.skippable_ofFields fields]
    rfl

theorem Scan.skippable_ofItems : ∀ items : List Json,
    Scan.skippableItems (Scan.ofItems items) = true
  | [] => rfl
  | v :: rest => by
    rw [Scan.ofItems, Scan.skippableItems, Scan.skippable_ofValue v, Scan.skippable_ofItems rest]
    rfl

theorem Scan.skippable_ofFields : ∀ fields : List (String × Json),
    Scan.skippableFields (Scan.ofFields fields) = true
  | [] => rfl
  | (n, v) :: rest => by
    rw [Scan.ofFields, Scan.skippableFields, Scan.skippable_ofValue v, Scan.skippable_ofFields rest]
    rfl

end

/-- The items of an array or the values of the fields of an object. -/
def Scan.parts : Scan → List Scan
  | .array items _ => items
  | .object fields _ => fields.map (·.2)
  | _ => []

/-- The value of a field, which is read from what is given or is the default. -/
def Field.Reads {α : Type} (field : Field α) (origin : Origin) (given : Given) (a : α) : Prop :=
  match given field.name with
  | some v => field.read origin v = .ok a
  | none => field.absent = some a

/-- What a slot holds, which is nothing as long as nothing is given. -/
def Field.Holds {α : Type} (field : Field α) (origin : Origin) (given : Given) (slot : Option α) :
    Prop :=
  match given field.name with
  | some v => ∃ a, field.read origin v = .ok a ∧ slot = some a
  | none => slot = none

namespace Field

variable {α : Type} {field : Field α} {origin : Origin} {given : Given}

/-- A value was read from something that was given, or is the default. -/
theorem Reads.cases {a : α} (h : field.Reads origin given a) :
    (∃ v, given field.name = some v ∧ field.read origin v = .ok a) ∨ field.absent = some a := by
  unfold Reads at h
  split at h
  · next v hv => exact .inl ⟨v, hv, h⟩
  · exact .inr h

/-- A field is read from the value that is given under its name. -/
theorem reads_of_given {v : Scan} {a : α} (hv : given field.name = some v)
    (h : field.read origin v = .ok a) : field.Reads origin given a := by
  rw [Reads, hv]
  exact h

theorem holds_update {name : String} (h : field.name ≠ name) (v : Scan) (slot : Option α) :
    field.Holds origin (Function.update given name (some v)) slot ↔ field.Holds origin given slot := by
  unfold Holds
  rw [Function.update_of_ne h]

/-- A field that was not given takes its default, if it has one. -/
theorem Holds.finish {slot : Option α} (h : field.Holds origin given slot) (a : α) :
    (slot.orElse fun _ => field.absent) = some a ↔ field.Reads origin given a := by
  unfold Holds at h
  unfold Reads
  split at h
  · obtain ⟨b, hb, rfl⟩ := h
    rw [hb]
    simp
  · subst h
    simp

end Field

namespace FieldList

/-- The names of the fields. -/
def names : {ts : List Type} → FieldList ts → List String
  | [], .nil => []
  | _ :: _, .cons field rest => field.name :: rest.names

/-- The values that the fields take from what is given. -/
def Reads (origin : Origin) (given : Given) : {ts : List Type} → FieldList ts → Row ts → Prop
  | [], .nil, () => True
  | _ :: _, .cons field rest, (a, row) => field.Reads origin given a ∧ rest.Reads origin given row

/-- What the slots of the fields hold. -/
def Holds (origin : Origin) (given : Given) : {ts : List Type} → FieldList ts → Slots ts → Prop
  | [], .nil, () => True
  | _ :: _, .cons field rest, (slot, slots) =>
    field.Holds origin given slot ∧ rest.Holds origin given slots

/-- What may end an array early may be left out of an object as well. -/
def Lenient : {ts : List Type} → FieldList ts → Prop
  | [], .nil => True
  | _ :: _, .cons field rest =>
    (∀ a, field.beyond = some a → field.absent = some a) ∧ rest.Lenient

/-- A list of fields as records have it. -/
structure Proper {ts : List Type} (fs : FieldList ts) : Prop where
  distinct : fs.names.Nodup
  lenient : fs.Lenient

variable {ts : List Type} {fs : FieldList ts} {origin : Origin} {ending : Ending} {given other : Given}

/-! ## What is given for other names -/

/-- Only what is given for the names of the fields counts. -/
theorem holds_congr (h : ∀ name ∈ fs.names, given name = other name) (slots : Slots ts) :
    fs.Holds origin given slots ↔ fs.Holds origin other slots := by
  induction fs with
  | nil => exact Iff.rfl
  | cons field rest ih =>
    obtain ⟨slot, slots⟩ := slots
    have hfield := h field.name List.mem_cons_self
    have hrest := ih (fun name hname => h name (List.mem_cons_of_mem _ hname)) slots
    simp only [Holds, hrest, Field.Holds, hfield]

/-- Only what is given for the names of the fields counts when they are read. -/
theorem reads_congr (h : ∀ name ∈ fs.names, given name = other name) (row : Row ts) :
    fs.Reads origin given row ↔ fs.Reads origin other row := by
  induction fs with
  | nil => exact Iff.rfl
  | cons field rest ih =>
    obtain ⟨a, row⟩ := row
    have hfield := h field.name List.mem_cons_self
    have hrest := ih (fun name hname => h name (List.mem_cons_of_mem _ hname)) row
    simp only [Reads, hrest, Field.Reads, hfield]

theorem holds_update {name : String} (h : name ∉ fs.names) (v : Scan) (slots : Slots ts) :
    fs.Holds origin (Function.update given name (some v)) slots ↔ fs.Holds origin given slots :=
  holds_congr (fun other hother =>
    Function.update_of_ne (fun heq : other = name => h (heq ▸ hother)) _ _) slots

/-! ## Slots -/

section Slots

variable {α : Type} {us : List Type} (field : Field α) (rest : FieldList us) (slots : Slots us)

theorem fill_taken {name : String} (h : field.name = name) (v : Scan) (b : α) :
    (cons field rest).fill origin name v (some b, slots) = .error .wrongShape := by
  exact if_pos h

/-- A value goes into the slot of its name. -/
theorem fill_own {name : String} (h : field.name = name) (v : Scan) :
    (cons field rest).fill origin name v (none, slots) =
      field.read origin v >>= fun a => pure (some (some a, slots)) := by
  exact if_pos h

/-- A value passes by the slots of other names. -/
theorem fill_other {name : String} (h : field.name ≠ name) (v : Scan) (slot : Option α) :
    (cons field rest).fill origin name v (slot, slots) =
      rest.fill origin name v slots >>= fun filled => pure (filled.map fun slots => (slot, slots)) := by
  exact if_neg h

theorem finish_cons (slot : Option α) :
    (cons field rest).finish (slot, slots) =
      match slot.orElse fun _ => field.absent with
      | none => .error .wrongShape
      | some a => rest.finish slots >>= fun row => pure (a, row) := rfl

theorem readArray_end :
    (cons field rest).readArray origin ending [] =
      if ending = .closed then
        match field.beyond with
        | some a => rest.readArray origin ending [] >>= fun row => pure (a, row)
        | none => .error .wrongShape
      else .error .notJson := rfl

theorem readArray_item (v : Scan) (vs : List Scan) :
    (cons field rest).readArray origin ending (v :: vs) =
      field.read origin v >>= fun a => rest.readArray origin ending vs >>= fun row =>
        pure (a, row) := rfl

end Slots

/-- At first no slot is taken and nothing is given. -/
theorem holds_emptySlots : fs.Holds origin (fun _ => none) fs.emptySlots := by
  induction fs with
  | nil => trivial
  | cons field rest ih => exact ⟨rfl, ih⟩

/-- A record is read from an object exactly when each of its fields is given, or may be missing. -/
theorem finish_ok {slots : Slots ts} (h : fs.Holds origin given slots) (row : Row ts) :
    fs.finish slots = .ok row ↔ fs.Reads origin given row := by
  induction fs with
  | nil => exact ⟨fun _ => trivial, fun _ => rfl⟩
  | cons field rest ih =>
    obtain ⟨slot, slots⟩ := slots
    obtain ⟨a, row⟩ := row
    rw [Reads, ← h.1.finish a, ← ih h.2 row, finish_cons]
    rcases slot.orElse fun _ => field.absent with _ | b
    · simp
    · constructor
      · intro hrow
        obtain ⟨others, hothers, hpair⟩ := ok_of_bind hrow
        obtain ⟨rfl, rfl⟩ := Prod.mk.inj (Except.ok.inj hpair)
        exact ⟨rfl, hothers⟩
      · rintro ⟨hb, hrest⟩
        cases hb
        rw [hrest]
        rfl

/-- A slot that was filled holds what was given for its name. -/
theorem fill_some (distinct : fs.names.Nodup) {name : String} {v : Scan} {slots filled : Slots ts}
    (held : fs.Holds origin given slots) (h : fs.fill origin name v slots = .ok (some filled)) :
    fs.Holds origin (Function.update given name (some v)) filled := by
  induction fs with
  | nil => cases h
  | cons field rest ih =>
    obtain ⟨slot, slots⟩ := slots
    obtain ⟨hfresh, distinct⟩ := List.nodup_cons.1 distinct
    by_cases hname : field.name = name
    · subst hname
      cases slot with
      | some b =>
        rw [fill_taken field rest slots rfl] at h
        cases h
      | none =>
        rw [fill_own field rest slots rfl] at h
        obtain ⟨a, hread, h⟩ := ok_of_bind h
        obtain rfl := Option.some.inj (Except.ok.inj h)
        refine ⟨?_, (holds_update hfresh v slots).2 held.2⟩
        simp [Field.Holds, hread]
    · rw [fill_other field rest slots hname] at h
      obtain ⟨_ | others, hrest, h⟩ := ok_of_bind h
      · cases h
      · obtain rfl := Option.some.inj (Except.ok.inj h)
        exact ⟨(Field.holds_update hname v slot).2 held.1, ih distinct held.2 hrest⟩

/-- A value is read into its slot, if there is one, when nothing was given for its name before. -/
theorem fill_of_reads (distinct : fs.names.Nodup) {name : String} {v : Scan} {slots : Slots ts}
    {row : Row ts} (held : fs.Holds origin given slots) (fresh : given name = none)
    (reads : fs.Reads origin other row) (hv : other name = some v) :
    ∃ filled, fs.fill origin name v slots = .ok filled ∧
      fs.Holds origin (Function.update given name (some v)) (filled.getD slots) := by
  induction fs with
  | nil => exact ⟨none, rfl, trivial⟩
  | cons field rest ih =>
    obtain ⟨slot, slots⟩ := slots
    obtain ⟨a, row⟩ := row
    obtain ⟨hfresh, distinct⟩ := List.nodup_cons.1 distinct
    -- the slot of the name is free, as nothing was given for it before
    by_cases hname : field.name = name
    · subst hname
      obtain rfl : slot = none := by
        have := held.1
        rwa [Field.Holds, fresh] at this
      have hread : field.read origin v = .ok a := by
        have := reads.1
        rwa [Field.Reads, hv] at this
      refine ⟨some (some a, slots), ?_, ?_, (holds_update hfresh v slots).2 held.2⟩
      · rw [fill_own field rest slots rfl, hread]
        rfl
      · simp [Field.Holds, hread]
    · obtain ⟨filled, hfill, hheld⟩ := ih distinct held.2 reads.2
      have hkept := (Field.holds_update hname v slot).2 held.1
      refine ⟨filled.map fun slots => (slot, slots), ?_, ?_⟩
      · rw [fill_other field rest slots hname, hfill]
        rfl
      · cases filled with
        | none => exact ⟨hkept, hheld⟩
        | some others => exact ⟨hkept, hheld⟩

/-! ## Objects and arrays -/

/-- What was read from the fields of an object was given by one of them. -/
theorem readObject_ok (distinct : fs.names.Nodup) {slots : Slots ts} {row : Row ts}
    {fields : List (Option String × Scan)} (held : fs.Holds origin given slots)
    (h : fs.readObject origin ending slots fields = .ok row) :
    ∃ all, fs.Reads origin all row ∧
      ∀ name v, all name = some v → given name = some v ∨ v ∈ fields.map (·.2) := by
  induction fields generalizing given slots with
  | nil =>
    rw [readObject] at h
    split at h
    · exact ⟨given, (finish_ok held row).1 h, fun _ _ hv => .inl hv⟩
    · cases h
  | cons field rest ih =>
    obtain ⟨_ | name, v⟩ := field
    · cases h
    obtain ⟨_ | filled, hfill, h⟩ := ok_of_bind h
    · obtain ⟨_, -, h⟩ := ok_of_bind h
      obtain ⟨all, hreads, hall⟩ := ih held h
      exact ⟨all, hreads, fun other w hw => (hall other w hw).imp_right (List.mem_cons_of_mem _)⟩
    · obtain ⟨all, hreads, hall⟩ := ih (fill_some distinct held hfill) h
      refine ⟨all, hreads, fun other w hw => ?_⟩
      rcases hall other w hw with hw | hw
      · by_cases hother : other = name
        · subst hother
          rw [Function.update_self] at hw
          exact .inr (List.mem_cons.2 (.inl (Option.some.inj hw).symm))
        · rw [Function.update_of_ne hother] at hw
          exact .inl hw
      · exact .inr (List.mem_cons_of_mem _ hw)

/-- What was read from the items of an array was given by them, in the order of the fields. -/
theorem readArray_ok (proper : fs.Proper) {items : List Scan} {row : Row ts}
    (h : fs.readArray origin ending items = .ok row) :
    ∃ all, fs.Reads origin all row ∧ ∀ name v, all name = some v → name ∈ fs.names ∧ v ∈ items := by
  induction fs generalizing items with
  | nil => exact ⟨fun _ => none, trivial, by simp⟩
  | cons field rest ih =>
    obtain ⟨hfresh, distinct⟩ := List.nodup_cons.1 proper.distinct
    obtain ⟨lenient, hlenient⟩ := proper.lenient
    obtain ⟨a, row⟩ := row
    cases items with
    | nil =>
      rw [readArray_end] at h
      split at h
      · split at h
        · next b hbeyond =>
          obtain ⟨others, hrest, h⟩ := ok_of_bind h
          obtain ⟨rfl, rfl⟩ := Prod.mk.inj (Except.ok.inj h)
          obtain ⟨all, hreads, hall⟩ := ih ⟨distinct, hlenient⟩ hrest
          -- nothing is given for a field beyond the end, so it takes its default
          have hnone : all field.name = none := by
            rcases hv : all field.name with _ | v
            · rfl
            · exact absurd (hall _ v hv).1 hfresh
          refine ⟨all, ⟨?_, hreads⟩, fun name v hv => (hall name v hv).imp_left (List.mem_cons_of_mem _)⟩
          rw [Field.Reads, hnone]
          exact lenient _ hbeyond
        · cases h
      · cases h
    | cons v vs =>
      rw [readArray_item] at h
      obtain ⟨b, hread, h⟩ := ok_of_bind h
      obtain ⟨others, hrest, h⟩ := ok_of_bind h
      obtain ⟨rfl, rfl⟩ := Prod.mk.inj (Except.ok.inj h)
      obtain ⟨all, hreads, hall⟩ := ih ⟨distinct, hlenient⟩ hrest
      refine ⟨Function.update all field.name (some v), ⟨?_, ?_⟩, fun name w hw => ?_⟩
      · rw [Field.Reads, Function.update_self]
        exact hread
      · refine (reads_congr (fun name hname => ?_) _).1 hreads
        exact (Function.update_of_ne (fun heq : name = field.name => hfresh (heq ▸ hname)) _ _).symm
      · by_cases hname : name = field.name
        · subst hname
          rw [Function.update_self] at hw
          exact ⟨List.mem_cons_self, List.mem_cons.2 (.inl (Option.some.inj hw).symm)⟩
        · rw [Function.update_of_ne hname] at hw
          exact (hall name w hw).imp (List.mem_cons_of_mem _) (List.mem_cons_of_mem _)

/-- Fields with different names are read as soon as each of them can be. -/
theorem readObject_of_reads (distinct : fs.names.Nodup) {slots : Slots ts} {row : Row ts}
    {fields : Fields} (held : fs.Holds origin given slots) (ascending : fields.Ascending)
    (fresh : ∀ field ∈ fields, given field.1 = none) (reads : fs.Reads origin other row)
    (hother : ∀ name, other name = (fields.given name).or (given name)) :
    fs.readObject origin .closed slots (Scan.ofFields fields) = .ok row := by
  induction fields generalizing given slots with
  | nil =>
    have heq : other = given := funext fun name => (hother name).trans rfl
    exact (finish_ok held row).2 (heq ▸ reads)
  | cons field rest ih =>
    obtain ⟨name, j⟩ := field
    obtain ⟨hfirst, hascending⟩ := List.pairwise_cons.1 ascending
    have hne {later : String × Json} (hlater : later ∈ rest) : later.1 ≠ name := fun heq =>
      String.lt_irrefl name (heq ▸ hfirst _ (List.mem_map_of_mem hlater))
    have hv : other name = some (Scan.ofValue j) := by
      rw [hother, Fields.given_cons_self, Option.some_or]
    -- what is given for the name moves from the fields that are left to those that were read
    obtain ⟨filled, hfill, hheld⟩ :=
      fill_of_reads distinct held (fresh _ List.mem_cons_self) reads hv
    have hrest := ih hheld hascending
      (fun later hlater => by
        rw [Function.update_of_ne (hne hlater)]
        exact fresh later (List.mem_cons_of_mem _ hlater))
      (fun n => by
        rw [hother]
        by_cases hn : n = name
        · subst hn
          have hnone : Fields.given rest n = none := by
            refine Fields.given_eq_none fun later hlater => hne hlater
          rw [Fields.given_cons_self, hnone, Function.update_self, Option.some_or, Option.none_or]
        · rw [Fields.given_cons_of_ne _ (Ne.symm hn), Function.update_of_ne hn])
    show (fs.fill origin name (Scan.ofValue j) slots >>= _) = _
    rw [hfill]
    cases filled with
    | none =>
      show (Reader.skip origin (Scan.ofValue j) >>= _) = _
      rw [Reader.skip, Scan.skippable_ofValue, if_pos rfl]
      exact hrest
    | some others => exact hrest

end FieldList

/-! ## Records -/

theorem Origin.room_enter {origin inner : Origin} (h : origin.enter = .ok inner) :
    origin.room.enter? = some inner.room := by
  rcases origin with (_ | n) | _ <;> cases h <;> rfl

namespace Reader

variable {α : Type} {ts : List Type} {fs : FieldList ts} {build : Row ts → α} {origin : Origin}

/-- A record was read from parts of an object or an array, or has defaults. -/
theorem record_ok (proper : fs.Proper) {scan : Scan} {a : α}
    (h : Reader.record fs build origin scan = .ok a) :
    ∃ inner given row, origin.enter = .ok inner ∧ fs.Reads inner given row ∧
      (∀ name v, given name = some v → v ∈ scan.parts) ∧ a = build row := by
  cases scan with
  | object fields ending =>
    obtain ⟨inner, henter, h⟩ := ok_of_bind h
    obtain ⟨row, hread, h⟩ := ok_of_bind h
    obtain ⟨given, hreads, hgiven⟩ :=
      FieldList.readObject_ok proper.distinct FieldList.holds_emptySlots hread
    exact ⟨inner, given, row, henter, hreads,
      fun name v hv => (hgiven name v hv).resolve_left (by simp), (Except.ok.inj h).symm⟩
  | array items ending =>
    obtain ⟨inner, henter, h⟩ := ok_of_bind h
    obtain ⟨row, hread, h⟩ := ok_of_bind h
    obtain ⟨given, hreads, hgiven⟩ := FieldList.readArray_ok proper hread
    exact ⟨inner, given, row, henter, hreads, fun name v hv => (hgiven name v hv).2,
      (Except.ok.inj h).symm⟩
  | _ => cases h

/-- A record is read from an object that gives its fields. -/
theorem record_object (distinct : fs.names.Nodup) {inner : Origin}
    (henter : origin.enter = .ok inner) {fields : Fields} (ascending : fields.Ascending)
    {row : Row ts} (h : fs.Reads inner fields.given row) :
    Reader.record fs build origin (Scan.ofValue (.object fields)) = .ok (build row) := by
  have hread := FieldList.readObject_of_reads distinct FieldList.holds_emptySlots ascending
    (fun _ _ => rfl) h fun name => (Option.or_none ..).symm
  rw [Scan.ofValue]
  show (origin.enter >>= _) = _
  rw [henter]
  show (fs.readObject inner .closed fs.emptySlots (Scan.ofFields fields) >>= _) = _
  rw [hread]
  rfl

end Reader

end WorkflowRules.Json
