import WorkflowRules.Proofs.Json.Printed
import WorkflowRules.Json.Reader

/-!
# Values that are read back

Containers of a text nest only so deeply, and the fields of an object are read into ascending order.
A value that keeps to both is read from its own scan, and so is everything that was ever read. With
numbers that are read back, such a value is read from its text.

* `Json.Fits` — values that are read from their scans with so much room
* `Json.fits_of_toValue?` — whatever was read fits into the room it was read with
* `Json.readsBack_of_exact` — the values that are read back from their texts
-/

namespace WorkflowRules.Json

open Scan (Room ofValue ofItems)

/-! ## Objects -/

namespace Fields

/-- The names are in strictly ascending order. -/
def Ascending (fs : Fields) : Prop := (fs.map (·.1)).Pairwise (· < ·)

theorem ascending_nil : Ascending [] := List.Pairwise.nil

/-- What is in an object after an insertion was inserted or was there before. -/
theorem mem_insert {name : String} {value : Json} {fs : Fields} {field : String × Json}
    (h : field ∈ insert name value fs) : field = (name, value) ∨ field ∈ fs := by
  induction fs with
  | nil => exact .inl (List.mem_singleton.1 h)
  | cons first rest ih =>
    unfold insert at h
    split at h
    · exact (List.mem_cons.1 h).imp_right (List.mem_cons_of_mem _)
    · split at h
      · exact List.mem_cons.1 h
      · rcases List.mem_cons.1 h with rfl | h
        · exact .inr List.mem_cons_self
        · exact (ih h).imp_right (List.mem_cons_of_mem _)

/-- An insertion keeps an object in order. -/
theorem ascending_insert {fs : Fields} (h : fs.Ascending) (name : String) (value : Json) :
    (insert name value fs).Ascending := by
  induction fs with
  | nil => exact List.pairwise_singleton _ _
  | cons first rest ih =>
    obtain ⟨hfirst, hrest⟩ := List.pairwise_cons.1 h
    unfold insert
    split
    · next heq => exact List.pairwise_cons.2 ⟨by rw [heq]; exact hfirst, hrest⟩
    · next hne =>
      split
      · next hlt =>
        refine List.pairwise_cons.2 ⟨fun n hn => ?_, h⟩
        rcases List.mem_cons.1 hn with rfl | hn
        · exact hlt
        · exact String.lt_trans hlt (hfirst n hn)
      · next hnot =>
        -- the new name is neither the first one nor before it
        refine List.pairwise_cons.2 ⟨fun n hn => ?_, ih hrest⟩
        obtain ⟨field, hfield, rfl⟩ := List.mem_map.1 hn
        rcases mem_insert hfield with rfl | hfield
        · rcases Decidable.em (first.1 < name) with hlt | hle
          · exact hlt
          · exact absurd (String.le_antisymm (String.not_lt.1 hle) (String.not_lt.1 hnot)) hne
        · exact hfirst _ (List.mem_map_of_mem hfield)

theorem ascending_foldl {fs : Fields} (h : fs.Ascending) (fields : List (String × Json)) :
    (fields.foldl (fun fs field => insert field.1 field.2 fs) fs).Ascending := by
  induction fields generalizing fs with
  | nil => exact h
  | cons field rest ih => exact ih (ascending_insert h _ _)

theorem ascending_ofList (fields : List (String × Json)) : (ofList fields).Ascending :=
  ascending_foldl ascending_nil fields

theorem mem_foldl {before : Fields} {fields : List (String × Json)} {field : String × Json}
    (h : field ∈ fields.foldl (fun fs field => insert field.1 field.2 fs) before) :
    field ∈ before ∨ field ∈ fields := by
  induction fields generalizing before with
  | nil => exact .inl h
  | cons first rest ih =>
    rcases ih h with h | h
    · rcases mem_insert h with rfl | h
      · exact .inr List.mem_cons_self
      · exact .inl h
    · exact .inr (List.mem_cons_of_mem _ h)

theorem mem_ofList {fields : List (String × Json)} {field : String × Json}
    (h : field ∈ ofList fields) : field ∈ fields := by
  exact (mem_foldl h).resolve_left List.not_mem_nil

/-- What stands before a field in order has a smaller name. -/
theorem Ascending.lt_of_append {before rest : Fields} {field : String × Json}
    (h : (before ++ field :: rest).Ascending) : ∀ other ∈ before, other.1 < field.1 := by
  intro other hother
  unfold Ascending at h
  rw [List.map_append] at h
  exact (List.pairwise_append.1 h).2.2 _ (List.mem_map_of_mem hother) _
    (List.mem_map_of_mem List.mem_cons_self)

/-- A name beyond all others goes to the end. -/
theorem insert_last {name : String} (value : Json) {fs : Fields} (h : ∀ field ∈ fs, field.1 < name) :
    insert name value fs = fs ++ [(name, value)] := by
  induction fs with
  | nil => rfl
  | cons first rest ih =>
    have hfirst := h first List.mem_cons_self
    have hne : name ≠ first.1 := fun heq => String.lt_irrefl _ (heq ▸ hfirst)
    have hnot : ¬ name < first.1 := fun hlt => String.lt_irrefl _ (String.lt_trans hlt hfirst)
    rw [insert, if_neg hne, if_neg hnot, ih fun field hmem => h field (List.mem_cons_of_mem _ hmem)]
    rfl

/-- A name before all others goes to the front. -/
theorem insert_first {name : String} (value : Json) {fs : Fields}
    (h : ∀ field ∈ fs, name < field.1) : insert name value fs = (name, value) :: fs := by
  cases fs with
  | nil => rfl
  | cons first rest =>
    have hlt := h first List.mem_cons_self
    have hne : name ≠ first.1 := fun heq => String.lt_irrefl _ (heq ▸ hlt)
    rw [insert, if_neg hne, if_pos hlt]

/-- Choosing fields by their names and adding a field can be done in either order. -/
theorem filter_insert {fs : Fields} (h : fs.Ascending) (p : String → Bool) (name : String)
    (value : Json) :
    (insert name value fs).filter (p ·.1) =
      if p name then insert name value (fs.filter (p ·.1)) else fs.filter (p ·.1) := by
  induction fs with
  | nil => cases hp : p name <;> simp [insert, hp]
  | cons first rest ih =>
    obtain ⟨hfirst, hrest⟩ := List.pairwise_cons.1 h
    by_cases heq : name = first.1
    · have hinsert : insert name value (first :: rest) = (name, value) :: rest := by
        rw [insert, if_pos heq]
      rw [hinsert]
      cases hp : p name
      · simp [hp, ← heq]
      · simp [hp, ← heq, insert]
    -- a new name goes to the front of both lists, or past the first field of both
    by_cases hlt : name < first.1
    · have hbefore : ∀ field ∈ first :: rest, name < field.1 := by
        intro field hfield
        rcases List.mem_cons.1 hfield with rfl | hfield
        · exact hlt
        · exact String.lt_trans hlt (hfirst _ (List.mem_map_of_mem hfield))
      have hkept : ∀ field ∈ (first :: rest).filter (p ·.1), name < field.1 := fun field hfield =>
        hbefore field (List.mem_filter.1 hfield).1
      rw [insert_first value hbefore, insert_first value hkept, List.filter_cons]
    · have hinsert (others : Fields) :
          insert name value (first :: others) = first :: insert name value others := by
        rw [insert, if_neg heq, if_neg hlt]
      rw [hinsert, List.filter_cons, List.filter_cons, ih hrest]
      by_cases hfirstKept : p first.1 = true
      · simp only [hfirstKept, if_true, hinsert]
        split <;> rfl
      · simp only [hfirstKept]
        rfl

/-- Fields may be selected by name before or after they are put in order. -/
theorem filter_foldl {before : Fields} (h : before.Ascending) (p : String → Bool)
    (fields : List (String × Json)) :
    (fields.foldl (fun fs field => insert field.1 field.2 fs) before).filter (p ·.1) =
      (fields.filter (p ·.1)).foldl (fun fs field => insert field.1 field.2 fs)
        (before.filter (p ·.1)) := by
  induction fields generalizing before with
  | nil => rfl
  | cons field rest ih =>
    rw [List.foldl_cons, ih (ascending_insert h _ _), filter_insert h]
    cases hp : p field.1 <;> simp [hp]

/-- Fields that are in order already stay as they are. -/
theorem foldl_ascending {before fields : Fields} (h : (before ++ fields).Ascending) :
    fields.foldl (fun fs field => insert field.1 field.2 fs) before = before ++ fields := by
  induction fields generalizing before with
  | nil => rw [List.foldl_nil, List.append_nil]
  | cons field rest ih =>
    have hlast := h.lt_of_append
    rw [List.append_cons] at h
    rw [List.foldl_cons, insert_last _ hlast, ih h, ← List.append_cons]

/-- Fields that are in order stay in it. -/
theorem ofList_ascending {fields : Fields} (h : fields.Ascending) : ofList fields = fields :=
  foldl_ascending h

end Fields

/-! ## Reading scans of values -/

/-- A value can be read from its scan with so much room for containers. -/
def Fits (room : Room) (j : Json) : Prop := (ofValue j).toValue? room = some j

/-- Items that fit are read back from their scans. -/
theorem toItems?_ofItems {room : Room} {items : List Json} (h : ∀ v ∈ items, Fits room v) :
    Scan.toItems? room (ofItems items) = some items := by
  induction items with
  | nil => rfl
  | cons v rest ih =>
    rw [ofItems, Scan.toItems?, h v List.mem_cons_self,
      ih fun w hw => h w (List.mem_cons_of_mem _ hw)]

/-- Fields that fit and are in order are read back from their scans. -/
theorem toFields?_ofFields {room : Room} {before fields : Fields}
    (h : ∀ field ∈ fields, Fits room field.2) (ascending : Fields.Ascending (before ++ fields)) :
    Scan.toFields? room before (Scan.ofFields fields) = some (before ++ fields) := by
  induction fields generalizing before with
  | nil => rw [Scan.ofFields, Scan.toFields?, List.append_nil]
  | cons field rest ih =>
    -- the field is beyond all that were read before it, so it is added at the end
    have hlast := ascending.lt_of_append
    have hfield : (ofValue field.2).toValue? room = some field.2 := h field List.mem_cons_self
    rw [Scan.ofFields, Scan.toFields?, hfield]
    simp only
    rw [Fields.insert_last _ hlast, ih (fun other hother => h other (List.mem_cons_of_mem _ hother)),
      List.append_assoc, List.singleton_append]
    rwa [List.append_assoc, List.singleton_append]

/-- An array is read where there is room for its level, if it is closed and all items are read. -/
theorem toValue?_array {room : Room} {items : List Scan} {ending : Ending} {j : Json} :
    (Scan.array items ending).toValue? room = some j ↔ ∃ inner vs, room.enter? = some inner ∧
      ending = .closed ∧ Scan.toItems? inner items = some vs ∧ j = .array vs := by
  unfold Scan.toValue?
  cases room.enter? <;> cases ending <;> simp [eq_comm]

/-- An object is read where there is room for its level, if it is closed and all fields are read. -/
theorem toValue?_object {room : Room} {fields : List (Option String × Scan)} {ending : Ending}
    {j : Json} :
    (Scan.object fields ending).toValue? room = some j ↔ ∃ inner fs, room.enter? = some inner ∧
      ending = .closed ∧ Scan.toFields? inner [] fields = some fs ∧ j = .object fs := by
  unfold Scan.toValue?
  cases room.enter? <;> cases ending <;> simp [eq_comm]

theorem fits_array {room inner : Room} (enter : room.enter? = some inner) {items : List Json}
    (h : ∀ v ∈ items, Fits inner v) : Fits room (.array items) := by
  rw [Fits, ofValue, toValue?_array]
  exact ⟨inner, items, enter, rfl, toItems?_ofItems h, rfl⟩

/-- An object in order fits if there is room for its level and its fields fit inside. -/
theorem fits_object {room inner : Room} (enter : room.enter? = some inner) {fields : Fields}
    (ascending : fields.Ascending) (h : ∀ field ∈ fields, Fits inner field.2) :
    Fits room (.object fields) := by
  rw [Fits, ofValue, toValue?_object]
  exact ⟨inner, fields, enter, rfl, toFields?_ofFields h ascending, rfl⟩

theorem fits_null (room : Room) : Fits room .null := by
  rw [Fits, ofValue, Scan.toValue?]

theorem fits_bool (room : Room) (b : Bool) : Fits room (.bool b) := by
  rw [Fits, ofValue, Scan.toValue?]

theorem fits_number (room : Room) (n : Number) : Fits room (.number n) := by
  rw [Fits, ofValue, Scan.toValue?, Option.map_some]

theorem fits_string (room : Room) (s : String) : Fits room (.string s) := by
  rw [Fits, ofValue, Scan.toValue?, Option.map_some]

/-! ## What was read -/

mutual

/-- What was read from a scan fits into the room it was read with. -/
theorem fits_of_toValue? {room : Room} {j : Json} : ∀ {scan : Scan}, scan.toValue? room = some j →
    Fits room j
  | .fault, h => by simp [Scan.toValue?] at h
  | .null, h => by
    rw [Scan.toValue?] at h
    exact Option.some.inj h ▸ fits_null room
  | .bool b, h => by
    rw [Scan.toValue?] at h
    exact Option.some.inj h ▸ fits_bool room b
  | .number n, h => by
    rw [Scan.toValue?] at h
    obtain ⟨m, -, rfl⟩ := Option.map_eq_some_iff.1 h
    exact fits_number room m
  | .string s, h => by
    rw [Scan.toValue?] at h
    obtain ⟨t, -, rfl⟩ := Option.map_eq_some_iff.1 h
    exact fits_string room t
  | .array items ending, h => by
    obtain ⟨inner, vs, enter, -, hvs, rfl⟩ := toValue?_array.1 h
    exact fits_array enter (fits_of_toItems? hvs)
  | .object fields ending, h => by
    obtain ⟨inner, fs, enter, -, hfs, rfl⟩ := toValue?_object.1 h
    obtain ⟨hfits, ascending⟩ := fits_of_toFields? hfs (by simp) Fields.ascending_nil
    exact fits_object enter ascending hfits

/-- Items that were read fit where they were read. -/
theorem fits_of_toItems? {room : Room} : ∀ {scans : List Scan} {items : List Json},
    Scan.toItems? room scans = some items → ∀ v ∈ items, Fits room v
  | [], items, h => by
    rw [Scan.toItems?] at h
    cases h
    simp
  | scan :: rest, items, h => by
    rw [Scan.toItems?] at h
    split at h
    · next v vs hv hvs =>
      cases h
      exact List.forall_mem_cons.2 ⟨fits_of_toValue? hv, fits_of_toItems? hvs⟩
    · cases h

/-- Fields that were read fit where they were read, and they are in order. -/
theorem fits_of_toFields? {room : Room} : ∀ {scans : List (Option String × Scan)}
    {before fields : Fields}, Scan.toFields? room before scans = some fields →
    (∀ field ∈ before, Fits room field.2) → before.Ascending →
    (∀ field ∈ fields, Fits room field.2) ∧ fields.Ascending
  | [], before, fields, h, hbefore, ascending => by
    rw [Scan.toFields?] at h
    cases h
    exact ⟨hbefore, ascending⟩
  | (none, _) :: _, before, fields, h, _, _ => by simp [Scan.toFields?] at h
  | (some n, scan) :: rest, before, fields, h, hbefore, ascending => by
    rw [Scan.toFields?] at h
    split at h
    · next v hv =>
      refine fits_of_toFields? h (fun field hfield => ?_) (Fields.ascending_insert ascending _ _)
      rcases Fields.mem_insert hfield with rfl | hfield
      · exact fits_of_toValue? hv
      · exact hbefore field hfield
    · cases h

end

mutual

/-- With more room than needed the same is read. -/
theorem toValue?_unlimited {room : Room} {j : Json} : ∀ {scan : Scan},
    scan.toValue? room = some j → scan.toValue? none = some j
  | .fault, h => by simp [Scan.toValue?] at h
  | .null, h => by rwa [Scan.toValue?] at h ⊢
  | .bool b, h => by rwa [Scan.toValue?] at h ⊢
  | .number n, h => by rwa [Scan.toValue?] at h ⊢
  | .string s, h => by rwa [Scan.toValue?] at h ⊢
  | .array items ending, h => by
    obtain ⟨inner, vs, -, closed, hvs, hj⟩ := toValue?_array.1 h
    exact toValue?_array.2 ⟨none, vs, rfl, closed, toItems?_unlimited hvs, hj⟩
  | .object fields ending, h => by
    obtain ⟨inner, fs, -, closed, hfs, hj⟩ := toValue?_object.1 h
    exact toValue?_object.2 ⟨none, fs, rfl, closed, toFields?_unlimited hfs, hj⟩

theorem toItems?_unlimited {room : Room} : ∀ {scans : List Scan} {items : List Json},
    Scan.toItems? room scans = some items → Scan.toItems? none scans = some items
  | [], items, h => by rwa [Scan.toItems?] at h ⊢
  | scan :: rest, items, h => by
    rw [Scan.toItems?] at h ⊢
    split at h
    · next v vs hv hvs => rwa [toValue?_unlimited hv, toItems?_unlimited hvs]
    · cases h

theorem toFields?_unlimited {room : Room} : ∀ {scans : List (Option String × Scan)}
    {before fields : Fields}, Scan.toFields? room before scans = some fields →
    Scan.toFields? none before scans = some fields
  | [], before, fields, h => by rwa [Scan.toFields?] at h ⊢
  | (none, _) :: _, before, fields, h => by simp [Scan.toFields?] at h
  | (some n, scan) :: rest, before, fields, h => by
    rw [Scan.toFields?] at h ⊢
    split at h
    · next v hv =>
      rw [toValue?_unlimited hv]
      exact toFields?_unlimited h
    · cases h

end

theorem Fits.unlimited {room : Room} {j : Json} (h : Fits room j) : Fits none j :=
  toValue?_unlimited h

/-! ## Reading texts -/

/-- A value is read from its own text. -/
def ReadsBack (j : Json) : Prop := Reader.any.ofText j.print = .ok j

/-- Only depth, the order of fields and the numbers decide whether a value is read back. -/
theorem readsBack_of_exact {j : Json} (exact : j.Exact) (fits : Fits (some maxDepth) j) :
    ReadsBack j := by
  have hvalue : (ofValue j).toValue? (some maxDepth) = some j := fits
  simp [ReadsBack, Reader.ofText, Document.ofText_print exact, Reader.any, Origin.room, hvalue]

end WorkflowRules.Json
