import WorkflowRules.Metadata
import WorkflowRules.Proofs.Json.Readers

/-!
# Metadata is read back

The fields that are not known are kept in ascending order, and the known ones are sorted in among
them when metadata is written. Reading takes them apart again.

* `Metadata.Kept` — what holds of metadata that was read
* `Metadata.reader_restores` — such metadata is read from what is written of it
-/

namespace WorkflowRules

open Json (Scan Reader Origin Ending Fields Fits)

namespace Metadata

variable {origin inner : Origin} {m : Metadata}

/-- Whether the field of a name is not known. -/
def isExtra (name : String) : Bool := name != "description" && name != "tags"

/-- What was read as metadata with so much room. -/
structure Kept (inner : Origin) (m : Metadata) : Prop where
  ascending : m.extra.Ascending
  extra : ∀ field ∈ m.extra, isExtra field.1 ∧ Fits inner.room field.2
  tags : m.tags ≠ [] → ∃ deeper, inner.enter = .ok deeper

theorem kept_empty (inner : Origin) : Kept inner .empty where
  ascending := Fields.ascending_nil
  extra := by simp [empty]
  tags := by simp [empty]

/-! ## What was read -/

/-- A field that was read leaves metadata that can be kept. -/
theorem kept_fill {slots filled : Slots} {name : String} {v : Scan} (h : Kept inner slots.finish)
    (hfill : slots.fill inner name v = .ok filled) : Kept inner filled.finish := by
  unfold Slots.fill at hfill
  split at hfill
  · split at hfill
    · cases hfill
    · obtain ⟨d, -, hfill⟩ := ok_of_bind hfill
      cases hfill
      exact ⟨h.ascending, h.extra, h.tags⟩
  · next hdescription =>
    split at hfill
    · split at hfill
      · cases hfill
      · obtain ⟨ts, hts, hfill⟩ := ok_of_bind hfill
        cases hfill
        obtain ⟨deeper, hdeeper, -⟩ := Reader.list_ok hts
        exact ⟨h.ascending, h.extra, fun _ => ⟨deeper, hdeeper⟩⟩
    · next htags =>
      obtain ⟨j, hj, hfill⟩ := ok_of_bind hfill
      cases hfill
      refine ⟨Fields.ascending_insert h.ascending _ _, fun field hfield => ?_, h.tags⟩
      rcases Fields.mem_insert hfield with rfl | hfield
      · exact ⟨by simp [isExtra, hdescription, htags], Json.fits_of_toValue? (Reader.any_ok hj)⟩
      · exact h.extra field hfield

/-- Fields that were read leave metadata that can be kept. -/
theorem kept_readFields {ending : Ending} {slots : Slots} {scans : List (Option String × Scan)}
    (h : Kept inner slots.finish) (hread : readFields inner ending slots scans = .ok m) :
    Kept inner m := by
  induction scans generalizing slots with
  | nil =>
    rw [readFields] at hread
    split at hread
    · exact Except.ok.inj hread ▸ h
    · cases hread
  | cons field rest ih =>
    obtain ⟨_ | name, v⟩ := field
    · cases hread
    obtain ⟨filled, hfill, hread⟩ := ok_of_bind hread
    exact ih (kept_fill h hfill) hread

theorem kept_of_reader {scan : Scan} (h : reader origin scan = .ok m) :
    ∃ inner, origin.enter = .ok inner ∧ Kept inner m := by
  cases scan with
  | object scans ending =>
    obtain ⟨inner, henter, h⟩ := ok_of_bind h
    have hempty : Kept inner (Slots.finish ⟨none, none, []⟩) := kept_empty inner
    exact ⟨inner, henter, kept_readFields hempty h⟩
  | _ => cases h

/-! ## What is read of what was written -/

/-- A field as it is written of metadata. -/
inductive Gives (inner : Origin) (m : Metadata) : String × Json → Prop
  | description {d : String} (h : m.description = some d) : Gives inner m ("description", .string d)
  | tags (h : m.tags ≠ []) : Gives inner m ("tags", .ofStrings m.tags)
  | extra {field : String × Json} (unknown : isExtra field.1) (h : Fits inner.room field.2) :
    Gives inner m field

/-- What has been read of metadata when some of the fields that are written of it have been read. -/
def slotsOf (m : Metadata) (before : Fields) : Slots where
  description := if "description" ∈ before.map (·.1) then some m.description else none
  tags := if "tags" ∈ before.map (·.1) then some m.tags else none
  extra := before.filter (isExtra ·.1)

/-- One more field fills its slot, or is one of the others. -/
theorem slotsOf_append (m : Metadata) (before : Fields) (field : String × Json) :
    slotsOf m (before ++ [field]) =
      { description := if field.1 = "description" then some m.description
          else (slotsOf m before).description
        tags := if field.1 = "tags" then some m.tags else (slotsOf m before).tags
        extra := (slotsOf m before).extra ++ if isExtra field.1 then [field] else [] } := by
  have hnames (name : String) :
      name ∈ (before ++ [field]).map (·.1) ↔ field.1 = name ∨ name ∈ before.map (·.1) := by
    rw [List.map_append, List.mem_append, or_comm, List.map_singleton, List.mem_singleton, eq_comm]
  have hextra : (before ++ [field]).filter (isExtra ·.1) =
      before.filter (isExtra ·.1) ++ if isExtra field.1 then [field] else [] := by
    rw [List.filter_append, List.filter_cons, List.filter_nil]
  simp only [slotsOf, hnames, hextra]
  congr 1
  · by_cases hname : field.1 = "description" <;> simp only [hname, true_or, false_or, if_true, if_false]
  · by_cases hname : field.1 = "tags" <;> simp only [hname, true_or, false_or, if_true, if_false]

/-- A field that was written is read into its slot. -/
theorem fill_slotsOf (kept : Kept inner m) {before : Fields} {field : String × Json}
    (ascending : (before ++ [field]).Ascending) (h : Gives inner m field) :
    (slotsOf m before).fill inner field.1 (.ofValue field.2) =
      .ok (slotsOf m (before ++ [field])) := by
  have hlast := ascending.lt_of_append
  have hfresh : field.1 ∉ before.map (·.1) := by
    intro hmem
    obtain ⟨other, hother, heq⟩ := List.mem_map.1 hmem
    exact String.lt_irrefl _ (heq ▸ hlast other hother)
  rw [slotsOf_append, Slots.fill]
  -- the slot is free, since no name is written twice
  cases h with
  | @description d hd =>
    have hread : Reader.option .string inner (.ofValue (.string d)) = .ok m.description := by
      rw [Scan.ofValue, hd]
      rfl
    have hnone : (slotsOf m before).description = none := if_neg hfresh
    simp only [hnone, hread, if_true]
    simp [isExtra, pure, Except.pure, bind, Except.bind]
  | tags htags =>
    obtain ⟨deeper, hdeeper⟩ := kept.tags htags
    have hread : Reader.list .string inner (.ofValue (.ofStrings m.tags)) = .ok m.tags :=
      Reader.list_ofValue hdeeper fun s _ => Reader.string_ofValue deeper s
    have hnone : (slotsOf m before).tags = none := if_neg hfresh
    simp only [hnone, hread, if_true]
    simp [isExtra, pure, Except.pure, bind, Except.bind]
  | extra unknown hfits =>
    have hnames : field.1 ≠ "description" ∧ field.1 ≠ "tags" := by simpa [isExtra] using unknown
    have hinsert : (slotsOf m before).extra.insert field.1 field.2 =
        (slotsOf m before).extra ++ [field] :=
      Fields.insert_last field.2 fun other hother => hlast other (List.mem_filter.1 hother).1
    rw [if_neg hnames.1, if_neg hnames.2, Reader.any_ofValue hfits]
    simp [hinsert, unknown, hnames, pure, Except.pure, bind, Except.bind]

/-- Fields that were written are read in their order. -/
theorem readFields_ofFields (kept : Kept inner m) {before fields : Fields}
    (ascending : (before ++ fields).Ascending) (h : ∀ field ∈ fields, Gives inner m field) :
    readFields inner .closed (slotsOf m before) (Scan.ofFields fields) =
      .ok (slotsOf m (before ++ fields)).finish := by
  induction fields generalizing before with
  | nil => rw [List.append_nil, Scan.ofFields, readFields, if_pos rfl]
  | cons field rest ih =>
    rw [List.append_cons] at ascending ⊢
    have hfield : (before ++ [field]).Ascending :=
      List.Pairwise.sublist (List.Sublist.map _ (List.sublist_append_left _ _)) ascending
    have hfill := fill_slotsOf kept hfield (h field List.mem_cons_self)
    rw [Scan.ofFields, readFields, hfill]
    exact ih ascending fun other hother => h other (List.mem_cons_of_mem _ hother)

theorem gives_of_mem (kept : Kept inner m) {field : String × Json}
    (h : field ∈ m.knownFields ++ m.extra) : Gives inner m field := by
  rcases List.mem_append.1 h with h | h
  · unfold knownFields at h
    rcases List.mem_append.1 h with h | h
    · split at h
      · next d hd => exact List.mem_singleton.1 h ▸ .description hd
      · cases h
    · split at h
      · cases h
      · next htags =>
        exact List.mem_singleton.1 h ▸ .tags fun heq => htags (by rw [heq]; rfl)
  · exact .extra (kept.extra field h).1 (kept.extra field h).2

/-- No name is written twice. -/
theorem distinct_fields (kept : Kept inner m) :
    ((m.knownFields ++ m.extra).map (·.1)).Nodup := by
  have hextra : (m.extra.map (·.1)).Nodup :=
    List.Pairwise.imp (fun hlt => String.ne_of_lt hlt) kept.ascending
  rw [List.map_append, List.nodup_append]
  refine ⟨?_, hextra, fun name hname other hother heq => ?_⟩
  · unfold knownFields
    cases m.description <;> cases m.tags <;> simp
  · obtain ⟨field, hfield, rfl⟩ := List.mem_map.1 hother
    have hunknown := (kept.extra field hfield).1
    have hknown : name = "description" ∨ name = "tags" := by
      revert hname
      unfold knownFields
      cases m.description <;> cases m.tags <;> simp +contextual
    rcases hknown with rfl | rfl <;> simp [isExtra, ← heq] at hunknown

/-- Of everything that is written of metadata, the metadata is read. -/
theorem finish_slotsOf (kept : Kept inner m) :
    (slotsOf m (Fields.ofList (m.knownFields ++ m.extra))).finish = m := by
  have hmem (name : String) (j : Json) (h : (name, j) ∈ m.knownFields) :
      name ∈ (Fields.ofList (m.knownFields ++ m.extra)).map (·.1) := by
    have hget := Fields.get?_eq_some (distinct_fields kept) (List.mem_append_left _ h)
    rw [← Fields.get?_ofList (distinct_fields kept)] at hget
    exact List.mem_map_of_mem (Fields.mem_of_get? hget)
  -- a known field is left out where it has its default, so that its slot stays free
  have hdescription : (slotsOf m (Fields.ofList (m.knownFields ++ m.extra))).description.getD none =
      m.description := by
    rcases hd : m.description with _ | d
    · show (if _ then some m.description else none).getD none = none
      split <;> simp [hd]
    · have hpresent := hmem "description" (.string d) (by simp [knownFields, hd])
      rw [slotsOf, if_pos hpresent, hd]
      rfl
  have htags : (slotsOf m (Fields.ofList (m.knownFields ++ m.extra))).tags.getD [] = m.tags := by
    rcases ht : m.tags with _ | ⟨t, ts⟩
    · show (if _ then some m.tags else none).getD [] = []
      split <;> simp [ht]
    · have hpresent := hmem "tags" (.ofStrings m.tags) (by simp [knownFields, ht])
      rw [slotsOf, if_pos hpresent, ht]
      rfl
  have hknown : m.knownFields.filter (isExtra ·.1) = [] := by
    unfold knownFields
    cases m.description <;> cases m.tags <;> simp [isExtra]
  have hextra : (slotsOf m (Fields.ofList (m.knownFields ++ m.extra))).extra = m.extra := by
    have hall : m.extra.filter (isExtra ·.1) = m.extra :=
      List.filter_eq_self.2 fun field hfield => (kept.extra field hfield).1
    show (Fields.ofList (m.knownFields ++ m.extra)).filter _ = _
    rw [Fields.ofList, Fields.filter_foldl Fields.ascending_nil, List.filter_append, hknown, hall]
    exact Fields.ofList_ascending kept.ascending
  rw [Slots.finish, hdescription, htags, hextra]

theorem reader_ofValue (henter : origin.enter = .ok inner) (kept : Kept inner m) :
    reader origin (.ofValue m.toJson) = .ok m := by
  have hread : readFields inner .closed (slotsOf m [])
        (Scan.ofFields (Fields.ofList (m.knownFields ++ m.extra))) =
      .ok (slotsOf m ([] ++ Fields.ofList (m.knownFields ++ m.extra))).finish :=
    readFields_ofFields kept (Fields.ascending_ofList _) fun field hfield =>
      gives_of_mem kept (Fields.mem_ofList hfield)
  rw [List.nil_append, finish_slotsOf kept] at hread
  rw [toJson, Json.ofFields, Scan.ofValue, reader, henter]
  exact hread

theorem reader_restores : reader.Restores toJson origin := by
  intro scan m h
  obtain ⟨inner, henter, kept⟩ := kept_of_reader h
  exact reader_ofValue henter kept

end Metadata

end WorkflowRules
