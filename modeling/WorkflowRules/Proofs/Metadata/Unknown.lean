import WorkflowRules.Proofs.Encoding
import WorkflowRules.Proofs.Json.Equality

/-!
# Metadata keeps what it does not know

Any object is metadata whose description is a text or null and whose tags are a list of texts. What
is written of it is the object again, field for field. Only a description that is null and tags of
which there are none are left out, since they say no more than their absence.

* `Metadata.Admissible` — the fields that are taken
* `Metadata.Slots.Holds` — what has been read tells which fields were read
* `Metadata.readFields_of_admissible`, `Metadata.readFields_of_not_admissible` — objects are taken or
  refused
* `Metadata.toJson_of_holds` — what is written of an object that was taken
* `Metadata.object_preserved` — an object through metadata and back
-/

namespace WorkflowRules

open Json (Scan Reader Origin Ending Fields Fits ReadError)

/-! ## Looking up fields -/

namespace Json.Fields

variable {fields : Fields}

/-- The first of two lists of fields goes before the second. -/
theorem get?_append (before after : Fields) (name : String) :
    get? name (before ++ after) = (get? name before).or (get? name after) := by
  induction before with
  | nil => rfl
  | cons field rest ih =>
    rw [List.cons_append, get?, get?, ih]
    split <;> rfl

theorem get?_append_self {before : Fields} {field : String × Json}
    (fresh : before.get? field.1 = none) : get? field.1 (before ++ [field]) = some field.2 := by
  rw [get?_append, get?, if_pos rfl, fresh, Option.none_or]

theorem get?_append_of_ne {before : Fields} {field : String × Json} {name : String}
    (hne : field.1 ≠ name) : get? name (before ++ [field]) = get? name before := by
  rw [get?_append, get?, if_neg hne, get?, Option.or_none]

/-- Where names differ, a field is found among the chosen ones when it is found and chosen. -/
theorem get?_filter (distinct : (fields.map (·.1)).Nodup) (p : String × Json → Bool) (name : String) :
    get? name (fields.filter p) = (get? name fields).filter fun v => p (name, v) := by
  induction fields with
  | nil => rfl
  | cons field rest ih =>
    obtain ⟨hfirst, hrest⟩ := List.nodup_cons.1 distinct
    by_cases hname : field.1 = name
    · subst hname
      have hnone : get? field.1 (rest.filter p) = none := by
        rw [ih hrest, get?_eq_none hfirst]
        rfl
      rw [List.filter_cons, get?, if_pos rfl]
      split
      · next hp => rw [get?, if_pos rfl, Option.filter_some, if_pos hp]
      · next hp => rw [hnone, Option.filter_some, if_neg hp]
    · rw [List.filter_cons, get?, if_neg hname, ← ih hrest]
      split
      · rw [get?, if_neg hname]
      · rfl

theorem Ascending.of_append {before rest : Fields} (h : (before ++ rest).Ascending) :
    before.Ascending :=
  List.Pairwise.sublist (List.Sublist.map _ (List.sublist_append_left _ _)) h

theorem Ascending.nodup (h : fields.Ascending) : (fields.map (·.1)).Nodup :=
  List.Pairwise.imp (fun hlt => String.ne_of_lt hlt) h

/-- In an object in order, the name of a field is not given before it. -/
theorem Ascending.get?_fresh {before : Fields} {field : String × Json}
    (h : (before ++ [field]).Ascending) : get? field.1 before = none := by
  refine get?_eq_none fun hmem => ?_
  obtain ⟨other, hother, heq⟩ := List.mem_map.1 hmem
  exact String.lt_irrefl _ (heq ▸ h.lt_of_append other hother)

/-- Objects in order are equal when the same is found in both under every name. -/
theorem Ascending.ext {others : Fields} (hfields : fields.Ascending) (hothers : others.Ascending)
    (h : ∀ name, fields.get? name = others.get? name) : fields = others := by
  have hsame : Keywise fields (· = ·) others :=
    ⟨fun name => by rw [h name], fun name x y hx hy => Option.some.inj (hx.symm.trans ((h name).trans hy))⟩
  have hpairs := (keywise_iff hfields hothers).1 hsame
  exact List.forall₂_eq_eq_eq ▸ hpairs.imp fun _ _ hpair => Prod.ext hpair.1 hpair.2

end Json.Fields

/-! ## Entering containers -/

namespace Json

variable {origin : Origin}

/-- Where there is room for one more level, it can be entered. -/
theorem Origin.enter_of_room {room : Scan.Room} (h : origin.room.enter? = some room) :
    ∃ inner, origin.enter = .ok inner ∧ inner.room = room := by
  rcases origin with (_ | n) | _ <;> cases h
  · exact ⟨.text n, rfl, rfl⟩
  · exact ⟨.value, rfl, rfl⟩

/-- An array that fits may be entered. -/
theorem Fits.enter_array {items : List Json} (h : Fits origin.room (.array items)) :
    ∃ inner, origin.enter = .ok inner := by
  rw [Fits, Scan.ofValue, toValue?_array] at h
  obtain ⟨room, -, hroom, -⟩ := h
  obtain ⟨inner, henter, -⟩ := Origin.enter_of_room hroom
  exact ⟨inner, henter⟩

/-- An object that fits may be entered. It is in order, and its fields fit one level further down. -/
theorem Fits.enter_object {fields : Fields} (h : Fits origin.room (.object fields)) :
    ∃ inner, origin.enter = .ok inner ∧ fields.Ascending ∧ ∀ field ∈ fields, Fits inner.room field.2 := by
  rw [Fits, Scan.ofValue, toValue?_object] at h
  obtain ⟨room, read, hroom, -, hread, heq⟩ := h
  cases heq
  obtain ⟨inner, henter, rfl⟩ := Origin.enter_of_room hroom
  obtain ⟨hfits, ascending⟩ := fits_of_toFields? hread (by simp) Fields.ascending_nil
  exact ⟨inner, henter, ascending, hfits⟩

end Json

/-! ## Refused values -/

namespace Json.Reader

variable {origin : Origin} {v : Json}

/-- Where a text is expected, everything else has the wrong shape. -/
theorem string_refused (h : ∀ s, v ≠ .string s) : string origin (.ofValue v) = .error .wrongShape := by
  cases v with
  | string s => exact absurd rfl (h s)
  | _ => rw [Scan.ofValue]; rfl

/-- Where a text may be missing, everything but a text and null has the wrong shape. -/
theorem option_string_refused (hnull : v ≠ .null) (h : ∀ s, v ≠ .string s) :
    option string origin (.ofValue v) = .error .wrongShape := by
  cases v with
  | null => exact absurd rfl hnull
  | string s => exact absurd rfl (h s)
  | _ => rw [Scan.ofValue]; rfl

/-- Of items that are not all texts, the first that is none is refused. -/
theorem items_string_refused {items : List Json} (h : ∀ ss : List String, items ≠ ss.map .string) :
    Reader.items string origin .closed (Scan.ofItems items) = .error .wrongShape := by
  induction items with
  | nil => exact absurd rfl (h [])
  | cons v rest ih =>
    rw [Scan.ofItems, Reader.items]
    by_cases hv : ∃ s, v = .string s
    · -- the first item is read, so one of the others is refused
      obtain ⟨s, rfl⟩ := hv
      have hrest : ∀ ss : List String, rest ≠ ss.map .string := fun ss heq =>
        h (s :: ss) (by rw [heq, List.map_cons])
      rw [string_ofValue, ih hrest]
      rfl
    · rw [string_refused fun s heq => hv ⟨s, heq⟩]
      rfl

/-- Where a list of texts is expected, everything else has the wrong shape. -/
theorem list_string_refused (fits : Fits origin.room v) (h : ∀ ss : List String, v ≠ .ofStrings ss) :
    list string origin (.ofValue v) = .error .wrongShape := by
  cases v with
  | array items =>
    obtain ⟨inner, henter⟩ := fits.enter_array
    have hitems : ∀ ss : List String, items ≠ ss.map .string := fun ss heq =>
      h ss (by rw [ofStrings, heq])
    rw [Scan.ofValue, list, henter]
    exact items_string_refused hitems
  | _ => rw [Scan.ofValue]; rfl

theorem list_string_ofStrings {ss : List String} (fits : Fits origin.room (.ofStrings ss)) :
    list string origin (.ofValue (.ofStrings ss)) = .ok ss := by
  obtain ⟨inner, henter⟩ := fits.enter_array
  exact list_ofValue henter fun s _ => string_ofValue inner s

end Json.Reader

namespace Metadata

variable {origin inner : Origin} {fields before : Fields} {field : String × Json} {slots : Slots}

/-! ## Fields of metadata -/

/-- The value of a field suits its name: a description is a text or null, tags are a list of texts. -/
structure Admissible (field : String × Json) : Prop where
  description : field.1 = "description" → field.2 = .null ∨ ∃ s, field.2 = .string s
  tags : field.1 = "tags" → ∃ ss, field.2 = .ofStrings ss

/-- Whether a field is written again. A description without a text and tags without a tag are not. -/
def isWritten (field : String × Json) : Bool :=
  match field.2 with
  | .null => field.1 != "description"
  | .array [] => field.1 != "tags"
  | _ => true

/-- What is given of a description, whether or not there is one. -/
def descriptionValue : Option String → Json
  | none => .null
  | some s => .string s

theorem tags_ne_description : "tags" ≠ "description" := by decide

/-- A description may be a text or null. -/
theorem admissible_description_iff {v : Json} :
    Admissible ("description", v) ↔ ∃ d, v = descriptionValue d := by
  constructor
  · intro h
    rcases h.description rfl with hnull | ⟨s, hs⟩
    · exact ⟨none, hnull⟩
    · exact ⟨some s, hs⟩
  · rintro ⟨_ | s, rfl⟩
    · exact ⟨fun _ => .inl rfl, fun hname => absurd hname.symm tags_ne_description⟩
    · exact ⟨fun _ => .inr ⟨s, rfl⟩, fun hname => absurd hname.symm tags_ne_description⟩

theorem admissible_tags_iff {v : Json} : Admissible ("tags", v) ↔ ∃ ss, v = .ofStrings ss :=
  ⟨fun h => h.tags rfl, fun h => ⟨fun hname => absurd hname tags_ne_description, fun _ => h⟩⟩

theorem admissible_of_isExtra (h : isExtra field.1 = true) : Admissible field := by
  obtain ⟨hdescription, htags⟩ := isExtra_iff.1 h
  exact ⟨fun hname => absurd hname hdescription, fun hname => absurd hname htags⟩

/-- A name is one of the two that are known, or it is not known. -/
theorem name_cases (name : String) : name = "description" ∨ name = "tags" ∨ isExtra name = true := by
  by_cases hdescription : name = "description"
  · exact .inl hdescription
  · by_cases htags : name = "tags"
    · exact .inr (.inl htags)
    · exact .inr (.inr (by simp [isExtra, hdescription, htags]))

/-! ## Reading one field -/

theorem option_string_descriptionValue (d : Option String) :
    Reader.option .string origin (.ofValue (descriptionValue d)) = .ok d := by
  cases d <;> rw [descriptionValue, Scan.ofValue] <;> rfl

/-- What has been read of metadata when these are the fields that were read. -/
structure Slots.Holds (before : Fields) (slots : Slots) : Prop where
  description : before.get? "description" = slots.description.map descriptionValue
  tags : before.get? "tags" = slots.tags.map .ofStrings
  extra : slots.extra = before.filter (isExtra ·.1)

theorem holds_nil : Slots.Holds [] ⟨none, none, []⟩ := ⟨rfl, rfl, rfl⟩

theorem filter_append_extra : (before ++ [field]).filter (isExtra ·.1) =
    before.filter (isExtra ·.1) ++ if isExtra field.1 then [field] else [] := by
  rw [List.filter_append, List.filter_cons, List.filter_nil]

theorem Slots.Holds.description_eq_none (h : slots.Holds before)
    (fresh : before.get? "description" = none) : slots.description = none := by
  rwa [h.description, Option.map_eq_none_iff] at fresh

theorem Slots.Holds.tags_eq_none (h : slots.Holds before) (fresh : before.get? "tags" = none) :
    slots.tags = none := by
  rwa [h.tags, Option.map_eq_none_iff] at fresh

/-- A field with an admissible value is taken, and with it all that was read so far is held. -/
theorem fill_of_admissible (h : slots.Holds before) (ascending : (before ++ [field]).Ascending)
    (fits : Fits inner.room field.2) (admissible : Admissible field) :
    ∃ filled, slots.fill inner field.1 (.ofValue field.2) = .ok filled ∧
      filled.Holds (before ++ [field]) := by
  have fresh := ascending.get?_fresh
  obtain ⟨name, v⟩ := field
  -- each name has a slot of its own, and all unknown ones share one
  rcases name_cases name with rfl | rfl | unknown
  · obtain ⟨d, rfl⟩ := admissible_description_iff.1 admissible
    refine ⟨{ slots with description := some d }, ?_, ?_, ?_, ?_⟩
    · rw [Slots.fill, if_pos rfl, h.description_eq_none fresh, option_string_descriptionValue]
      rfl
    · exact Fields.get?_append_self fresh
    · exact (Fields.get?_append_of_ne tags_ne_description.symm).trans h.tags
    · rw [filter_append_extra, h.extra]
      exact (List.append_nil _).symm
  · obtain ⟨ss, rfl⟩ := admissible_tags_iff.1 admissible
    refine ⟨{ slots with tags := some ss }, ?_, ?_, ?_, ?_⟩
    · rw [Slots.fill, if_neg tags_ne_description, if_pos rfl, h.tags_eq_none fresh,
        Reader.list_string_ofStrings fits]
      rfl
    · exact (Fields.get?_append_of_ne tags_ne_description).trans h.description
    · exact Fields.get?_append_self fresh
    · rw [filter_append_extra, h.extra]
      exact (List.append_nil _).symm
  · obtain ⟨hdescription, htags⟩ := isExtra_iff.1 unknown
    have hinsert : slots.extra.insert name v = slots.extra ++ [(name, v)] := by
      rw [h.extra]
      exact Fields.insert_last v fun other hother =>
        ascending.lt_of_append other (List.mem_filter.1 hother).1
    refine ⟨{ slots with extra := slots.extra ++ [(name, v)] }, ?_, ?_, ?_, ?_⟩
    · rw [Slots.fill, if_neg hdescription, if_neg htags, Reader.any_ofValue fits, ← hinsert]
      rfl
    · exact (Fields.get?_append_of_ne hdescription).trans h.description
    · exact (Fields.get?_append_of_ne htags).trans h.tags
    · rw [filter_append_extra, h.extra, if_pos unknown]

/-- A field with another value is refused, whatever was read before it. -/
theorem fill_of_not_admissible (h : slots.Holds before) (ascending : (before ++ [field]).Ascending)
    (fits : Fits inner.room field.2) (refused : ¬ Admissible field) :
    slots.fill inner field.1 (.ofValue field.2) = .error .wrongShape := by
  have fresh := ascending.get?_fresh
  obtain ⟨name, v⟩ := field
  rcases name_cases name with rfl | rfl | unknown
  · rw [admissible_description_iff] at refused
    have hread : Reader.option .string inner (.ofValue v) = .error .wrongShape :=
      Reader.option_string_refused (fun heq => refused ⟨none, heq⟩) fun s heq => refused ⟨some s, heq⟩
    rw [Slots.fill, if_pos rfl, h.description_eq_none fresh, hread]
    rfl
  · rw [admissible_tags_iff] at refused
    have hread : Reader.list .string inner (.ofValue v) = .error .wrongShape :=
      Reader.list_string_refused fits fun ss heq => refused ⟨ss, heq⟩
    rw [Slots.fill, if_neg tags_ne_description, if_pos rfl, h.tags_eq_none fresh, hread]
    rfl
  · exact absurd (admissible_of_isExtra unknown) refused

/-! ## Reading all fields -/

/-- Fields with admissible values are all read, in their order. -/
theorem readFields_of_admissible (h : slots.Holds before) (ascending : (before ++ fields).Ascending)
    (fits : ∀ field ∈ fields, Fits inner.room field.2) (admissible : ∀ field ∈ fields, Admissible field) :
    ∃ filled : Slots, readFields inner .closed slots (Scan.ofFields fields) = .ok filled.finish ∧
      filled.Holds (before ++ fields) := by
  induction fields generalizing before slots with
  | nil => exact ⟨slots, rfl, (List.append_nil before).symm ▸ h⟩
  | cons field rest ih =>
    obtain ⟨hfits, fits⟩ := List.forall_mem_cons.1 fits
    obtain ⟨hfield, admissible⟩ := List.forall_mem_cons.1 admissible
    rw [List.append_cons] at ascending
    obtain ⟨filled, hfill, hfilled⟩ := fill_of_admissible h ascending.of_append hfits hfield
    obtain ⟨all, hread, hall⟩ := ih hfilled ascending fits admissible
    refine ⟨all, ?_, List.append_cons .. ▸ hall⟩
    rw [Scan.ofFields, readFields, hfill]
    exact hread

/-- The first field that does not suit its name ends the reading. -/
theorem readFields_of_not_admissible (h : slots.Holds before) (ascending : (before ++ fields).Ascending)
    (fits : ∀ field ∈ fields, Fits inner.room field.2)
    (refused : ¬ ∀ field ∈ fields, Admissible field) :
    readFields inner .closed slots (Scan.ofFields fields) = .error .wrongShape := by
  induction fields generalizing before slots with
  | nil => exact absurd (by simp) refused
  | cons field rest ih =>
    obtain ⟨hfits, fits⟩ := List.forall_mem_cons.1 fits
    rw [List.append_cons] at ascending
    rw [Scan.ofFields, readFields]
    by_cases hfield : Admissible field
    · obtain ⟨filled, hfill, hfilled⟩ := fill_of_admissible h ascending.of_append hfits hfield
      have hrest : ¬ ∀ other ∈ rest, Admissible other := fun hrest =>
        refused (List.forall_mem_cons.2 ⟨hfield, hrest⟩)
      rw [hfill]
      exact ih hfilled ascending fits hrest
    · rw [fill_of_not_admissible h ascending.of_append hfits hfield]
      rfl

/-! ## Writing what was read -/

/-- A field that metadata do not know of is written again, whatever its value. -/
theorem isWritten_of_isExtra {name : String} (unknown : isExtra name = true) (v : Json) :
    isWritten (name, v) = true := by
  obtain ⟨hdescription, htags⟩ := isExtra_iff.1 unknown
  unfold isWritten
  split <;> simp [hdescription, htags]

theorem get?_knownFields_description (m : Metadata) :
    Fields.get? "description" m.knownFields = m.description.map .string := by
  rw [knownFields, Fields.get?_append]
  cases m.description <;> cases m.tags <;> simp [Fields.get?]

theorem get?_knownFields_tags (m : Metadata) :
    Fields.get? "tags" m.knownFields = if m.tags = [] then none else some (.ofStrings m.tags) := by
  rw [knownFields, Fields.get?_append]
  cases m.description <;> cases m.tags <;> simp [Fields.get?]

/-- What is written for the fields that are known has no other names. -/
theorem get?_knownFields_of_isExtra (m : Metadata) {name : String} (unknown : isExtra name = true) :
    Fields.get? name m.knownFields = none := by
  obtain ⟨hdescription, htags⟩ := isExtra_iff.1 unknown
  rw [knownFields, Fields.get?_append]
  cases m.description <;> cases m.tags <;>
    simp [Fields.get?, Ne.symm hdescription, Ne.symm htags]

/-- Of a description that was read, nothing is written when it is null. -/
theorem filter_descriptionValue (d : Option (Option String)) :
    ((d.map descriptionValue).filter fun v => isWritten ("description", v)) =
      (d.getD none).map .string := by
  rcases d with _ | _ | s <;> rfl

/-- Of tags that were read, nothing is written when there are none. -/
theorem filter_tagsValue (ts : Option (List String)) :
    ((ts.map Json.ofStrings).filter fun v => isWritten ("tags", v)) =
      if ts.getD [] = [] then none else some (.ofStrings (ts.getD [])) := by
  rcases ts with _ | _ | ⟨s, ss⟩ <;> rfl

/-- Under every name, the same is written as was there, if it is written at all. -/
theorem get?_written (h : slots.Holds fields) (ascending : fields.Ascending) (name : String) :
    Fields.get? name (slots.finish.knownFields ++ slots.finish.extra) =
      Fields.get? name (fields.filter isWritten) := by
  have hextra (name : String) : Fields.get? name slots.finish.extra =
      (fields.get? name).filter fun _ => isExtra name := by
    rw [Slots.finish, h.extra, Fields.get?_filter ascending.nodup]
  -- the fields that are not known hold nothing under a known name
  have hunknown {name : String} (known : isExtra name = false) :
      Fields.get? name slots.finish.extra = none := by
    rw [hextra, known]
    cases fields.get? name <;> rfl
  rw [Fields.get?_append, Fields.get?_filter ascending.nodup]
  rcases name_cases name with rfl | rfl | unknown
  · rw [hunknown rfl, get?_knownFields_description, h.description, filter_descriptionValue,
      Option.or_none]
    rfl
  · rw [hunknown rfl, get?_knownFields_tags, h.tags, filter_tagsValue, Option.or_none]
    rfl
  · rw [hextra, get?_knownFields_of_isExtra _ unknown, Option.none_or, unknown]
    congr 1
    funext v
    exact (isWritten_of_isExtra unknown v).symm

/-- What was read is written as the object that it came from, without the fields that are left out. -/
theorem toJson_of_holds (h : slots.Holds fields) (ascending : fields.Ascending)
    (kept : Kept inner slots.finish) : slots.finish.toJson = .object (fields.filter isWritten) := by
  have hfiltered : Fields.Ascending (fields.filter isWritten) :=
    List.Pairwise.sublist (List.Sublist.map _ List.filter_sublist) ascending
  have hfields : Fields.ofList (slots.finish.knownFields ++ slots.finish.extra) =
      fields.filter isWritten := by
    refine (Fields.ascending_ofList _).ext hfiltered fun name => ?_
    rw [Fields.get?_ofList (distinct_fields kept), get?_written h ascending]
  rw [toJson, Json.ofFields, hfields]

/-! ## Objects -/

/--
An object is metadata exactly when its known fields suit their names. Every field comes back as it
was, at its place among the others, but for the two that say nothing.
-/
theorem object_preserved (h : Fits origin.room (.object fields)) :
    ((∀ field ∈ fields, Admissible field) →
        ∃ m, reader origin (.ofValue (.object fields)) = .ok m ∧
          m.toJson = .object (fields.filter isWritten)) ∧
      ((¬ ∀ field ∈ fields, Admissible field) →
        reader origin (.ofValue (.object fields)) = .error .wrongShape) := by
  obtain ⟨inner, henter, ascending, fits⟩ := h.enter_object
  have hreader : reader origin (.ofValue (.object fields)) =
      readFields inner .closed ⟨none, none, []⟩ (Scan.ofFields fields) := by
    rw [Scan.ofValue, reader, henter]
    rfl
  rw [hreader]
  refine ⟨fun admissible => ?_, readFields_of_not_admissible holds_nil ascending fits⟩
  obtain ⟨filled, hread, hfilled⟩ := readFields_of_admissible holds_nil ascending fits admissible
  exact ⟨filled.finish, hread,
    toJson_of_holds hfilled ascending (kept_readFields (kept_empty inner) hread)⟩

theorem object_preserved_order :
    let order : Fields := [("description", .null), ("owner", .object [("tags", .array [])]),
      ("sla_hours", .ofInt 48), ("tags", .ofStrings ["orders"])]
    let numbered : Fields := [("description", .ofInt 48), ("owner", .null)]
    Fits Origin.value.room (.object order) ∧ (∀ field ∈ order, Admissible field) ∧
      (∃ m, reader.ofValue (.object order) = .ok m ∧ m.toJson = .object (order.drop 1)) ∧
      Fits Origin.value.room (.object numbered) ∧ (¬ ∀ field ∈ numbered, Admissible field) ∧
      reader.ofValue (.object numbered) = .error .wrongShape := by
  intro order numbered
  have horder : Fits Origin.value.room (.object order) := by
    refine Json.fits_none_iff.2 (Json.ordered_object.2 ⟨?_, ?_⟩)
    · unfold Fields.Ascending
      decide
    · simp [order, Json.ofStrings, Json.ofInt, Fields.Ascending]
  have hnumbered : Fits Origin.value.room (.object numbered) := by
    refine Json.fits_none_iff.2 (Json.ordered_object.2 ⟨?_, ?_⟩)
    · unfold Fields.Ascending
      decide
    · simp [numbered, Json.ofInt]
  have hadmissible : ∀ field ∈ order, Admissible field := by
    intro field hfield
    simp only [order, List.mem_cons, List.not_mem_nil, or_false] at hfield
    obtain rfl | rfl | rfl | rfl := hfield
    · exact admissible_description_iff.2 ⟨none, rfl⟩
    · exact admissible_of_isExtra rfl
    · exact admissible_of_isExtra rfl
    · exact admissible_tags_iff.2 ⟨["orders"], rfl⟩
  have hrefused : ¬ ∀ field ∈ numbered, Admissible field := by
    intro h
    have hfirst := (h _ List.mem_cons_self).description rfl
    simp [Json.ofInt] at hfirst
  exact ⟨horder, hadmissible, (object_preserved horder).1 hadmissible, hnumbered, hrefused,
    (object_preserved hnumbered).2 hrefused⟩

end Metadata

end WorkflowRules
