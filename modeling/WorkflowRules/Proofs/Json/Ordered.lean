import WorkflowRules.Proofs.Json.Fits

/-!
# Values whose objects are in order

An object lists its fields in strictly ascending order of their names, at every depth. All that is
ever built or read is of this kind; the type alone also has lists of fields in other orders.

* `Json.inductionOnParts` — induction over values, with the parts of a container as members
* `Json.Ordered` — every object in a value is in order
* `Json.fits_none_iff` — where nesting is not bounded, these are the values that are read back
-/

namespace WorkflowRules.Json

open Scan (ofValue)

/-! ## Induction -/

/-- A property of all values holds of a container when it holds of its parts. -/
@[elab_as_elim]
theorem inductionOnParts {motive : Json → Prop} (null : motive .null) (bool : ∀ b, motive (.bool b))
    (number : ∀ n, motive (.number n)) (string : ∀ s, motive (.string s))
    (array : ∀ items, (∀ v ∈ items, motive v) → motive (.array items))
    (object : ∀ fields, (∀ field ∈ fields, motive field.2) → motive (.object fields)) :
    ∀ j : Json, motive j :=
  @Json.rec motive (fun items => ∀ v ∈ items, motive v)
    (fun fields => ∀ field ∈ fields, motive field.2) (fun field => motive field.2)
    null bool number string array object
    (fun _ h => absurd h List.not_mem_nil) (fun _ _ hv hrest => List.forall_mem_cons.2 ⟨hv, hrest⟩)
    (fun _ h => absurd h List.not_mem_nil) (fun _ _ hv hrest => List.forall_mem_cons.2 ⟨hv, hrest⟩)
    (fun _ _ hv => hv)

/-! ## Order -/

mutual

/-- The fields of every object in a value are in ascending order. -/
def Ordered : Json → Prop
  | .null | .bool _ | .number _ | .string _ => True
  | .array items => OrderedItems items
  | .object fields => Fields.Ascending fields ∧ OrderedFields fields

/-- The items of an array are in order. -/
def OrderedItems : List Json → Prop
  | [] => True
  | v :: rest => Ordered v ∧ OrderedItems rest

/-- The values of the fields of an object are in order. -/
def OrderedFields : List (String × Json) → Prop
  | [] => True
  | (_, v) :: rest => Ordered v ∧ OrderedFields rest

end

/-- The items of an array are in order one by one. -/
theorem orderedItems_iff {items : List Json} : OrderedItems items ↔ ∀ v ∈ items, Ordered v := by
  induction items with
  | nil => simp [OrderedItems]
  | cons v rest ih => simp [OrderedItems, ih]

/-- The values of an object are in order one by one. -/
theorem orderedFields_iff {fields : List (String × Json)} :
    OrderedFields fields ↔ ∀ field ∈ fields, Ordered field.2 := by
  induction fields with
  | nil => simp [OrderedFields]
  | cons field rest ih => simp [OrderedFields, ih]

@[simp] theorem ordered_null : Ordered .null := trivial

@[simp] theorem ordered_bool (b : Bool) : Ordered (.bool b) := trivial

@[simp] theorem ordered_number (n : Number) : Ordered (.number n) := trivial

@[simp] theorem ordered_string (s : String) : Ordered (.string s) := trivial

@[simp] theorem ordered_array {items : List Json} :
    Ordered (.array items) ↔ ∀ v ∈ items, Ordered v := by
  rw [Ordered, orderedItems_iff]

@[simp] theorem ordered_object {fields : Fields} :
    Ordered (.object fields) ↔ fields.Ascending ∧ ∀ field ∈ fields, Ordered field.2 := by
  rw [Ordered, orderedFields_iff]

/-! ## Reading -/

/-- What is read back with some room has its objects in order. -/
theorem Fits.ordered {room : Scan.Room} {j : Json} (h : Fits room j) : Ordered j := by
  induction j using inductionOnParts generalizing room with
  | null => trivial
  | bool b => trivial
  | number n => trivial
  | string s => trivial
  | array items ih =>
    rw [Fits, ofValue, toValue?_array] at h
    obtain ⟨inner, vs, -, -, hvs, heq⟩ := h
    cases heq
    exact ordered_array.2 fun v hv => ih v hv (fits_of_toItems? hvs v hv)
  | object fields ih =>
    rw [Fits, ofValue, toValue?_object] at h
    obtain ⟨inner, fs, -, -, hfs, heq⟩ := h
    cases heq
    obtain ⟨hfits, ascending⟩ := fits_of_toFields? hfs (by simp) Fields.ascending_nil
    exact ordered_object.2 ⟨ascending, fun field hfield => ih field hfield (hfits field hfield)⟩

/-- Where nesting is not bounded, order is all that a value needs to be read back. -/
theorem fits_none_iff {j : Json} : Fits none j ↔ Ordered j := by
  refine ⟨Fits.ordered, ?_⟩
  induction j using inductionOnParts with
  | null => exact fun _ => fits_null none
  | bool b => exact fun _ => fits_bool none b
  | number n => exact fun _ => fits_number none n
  | string s => exact fun _ => fits_string none s
  | array items ih =>
    intro h
    exact fits_array rfl fun v hv => ih v hv (ordered_array.1 h v hv)
  | object fields ih =>
    intro h
    obtain ⟨ascending, hvalues⟩ := ordered_object.1 h
    exact fits_object rfl ascending fun field hfield => ih field hfield (hvalues field hfield)

end WorkflowRules.Json
