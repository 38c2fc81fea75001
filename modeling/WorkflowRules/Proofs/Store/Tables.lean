import Mathlib.Data.List.Basic
import WorkflowRules.Engine.Lifecycle
import WorkflowRules.Proofs.Except
import WorkflowRules.Proofs.Rule.Codec
import WorkflowRules.Proofs.Rule.Table
import WorkflowRules.Proofs.Store.Cells
import WorkflowRules.Proofs.Workflow.Codec

/-!
# The tables of definitions and rules

What an engine loads is the content of two tables: definitions under the names of their rows, and
rules in the order of the rows. Rows that cannot be read, or whose content would be refused, count as
absent. A row that is written takes the place of the row of its name, or is the last one.

* `Database.Defines` — the definitions that are loaded
* `Database.loadable` — the rules that are loaded, in their order
* `Database.Filed` — every rule is stored in the row of its name
* `Keyed.Follows`, `Keyed.insert_split` — the place of a row, which it keeps when it is written again
* `Database.loadable_saved`, `loadable_dropped`, `loadable_switched` — what the statements do to them
* `Database.rule?` — the rule that is loaded under a name
-/

namespace WorkflowRules

open Json (Reader)
open RuleTable (switch)
open Store (Cell)

/-! ## Tables and lists -/

namespace Keyed

variable {κ α : Type} [DecidableEq κ]

/-- What is put under a key goes past the entries of other keys. -/
theorem put_append {key : κ} {before : List (κ × α)} (h : key ∉ before.map (·.1)) (value : α)
    (rest : List (κ × α)) : put key value (before ++ rest) = before ++ put key value rest := by
  induction before with
  | nil => rfl
  | cons e before ih =>
    obtain ⟨hkey, h⟩ := not_or.1 (List.mem_cons.not.1 h)
    rw [List.cons_append, put, if_neg (Ne.symm hkey), ih h, List.cons_append]

theorem without_of_not_mem {key : κ} {es : List (κ × α)} (h : key ∉ es.map (·.1)) :
    without key es = es :=
  List.filter_eq_self.2 fun _ he =>
    decide_eq_true fun heq => h (heq ▸ List.mem_map_of_mem he)

/-- A key comes after another one. -/
def Follows (t : Keyed κ α) (key later : κ) : Prop :=
  ∃ before value after, t.entries = before ++ (key, value) :: after ∧ later ∈ after.map (·.1)

section Split

variable {t : Keyed κ α} {key : κ} {old : α} {before after : List (κ × α)}
  (split : t.entries = before ++ (key, old) :: after)

include split

omit [DecidableEq κ] in
/-- Around the entry of a key, no other entry has the key. -/
theorem not_mem_of_split : key ∉ before.map (·.1) ∧ key ∉ after.map (·.1) := by
  have hunique := t.unique
  rw [split, List.map_append, List.map_cons, List.nodup_middle, List.nodup_cons, List.mem_append,
    not_or] at hunique
  exact hunique.1

/-- What is put in anew under a key takes the place of the old entry. -/
theorem entries_insert_of_split (value : α) :
    (t.insert key value).entries = before ++ (key, value) :: after := by
  show put key value t.entries = _
  rw [split, put_append (not_mem_of_split split).1, put, if_pos rfl]

/-- Without the entry of a key, what was around it closes up. -/
theorem without_of_split : without key t.entries = before ++ after := by
  obtain ⟨hbefore, hafter⟩ := not_mem_of_split split
  rw [split, without, List.filter_append, List.filter_cons_of_neg (by simp)]
  exact congrArg₂ (· ++ ·) (without_of_not_mem hbefore) (without_of_not_mem hafter)

end Split

/-- A value is put in the place of the old one, or at the end. -/
theorem insert_split (t : Keyed κ α) (key : κ) (value : α) :
    ∃ before after, (t.insert key value).entries = before ++ (key, value) :: after ∧
      without key t.entries = before ++ after ∧
      ∀ later, t.Follows key later ↔ later ∈ after.map (·.1) := by
  by_cases hkey : key ∈ t.keys
  · -- keys are unique, so there is only one way to split the entries at this one
    obtain ⟨⟨_, old⟩, hentry, rfl⟩ := List.mem_map.1 hkey
    obtain ⟨before, after, split⟩ := List.append_of_mem hentry
    have hinsert := entries_insert_of_split split value
    obtain ⟨hbefore, hafter⟩ := not_mem_of_split hinsert
    refine ⟨before, after, hinsert, without_of_split split, fun later => ⟨?_, fun hlater => ?_⟩⟩
    · rintro ⟨before', old', after', split', hlater⟩
      have heq := hinsert.symm.trans (entries_insert_of_split split' value)
      obtain ⟨-, -, rfl⟩ := (List.append_cons_inj_of_notMem
        (fun h => hbefore (List.mem_map_of_mem h)) fun h => hafter (List.mem_map_of_mem h)).1 heq
      exact hlater
    · exact ⟨before, old, after, split, hlater⟩
  · refine ⟨t.entries, [], ?_, ?_, fun later => ⟨?_, fun hlater => by cases hlater⟩⟩
    · have hput := put_append hkey value []
      rwa [List.append_nil] at hput
    · rw [List.append_nil]
      exact without_of_not_mem hkey
    · rintro ⟨before, old, after, split, -⟩
      have hmem : (key, old) ∈ t.entries := split ▸ List.mem_append_right _ List.mem_cons_self
      exact absurd (List.mem_map_of_mem hmem) hkey

theorem get?_eq_none_iff {t : Keyed κ α} {key : κ} : t.get? key = none ↔ key ∉ t.keys := by
  constructor
  · rintro h hmem
    obtain ⟨⟨k, a⟩, hentry, rfl⟩ := List.mem_map.1 hmem
    cases h.symm.trans (get?_eq_some_iff.2 hentry)
  · intro h
    cases hget : t.get? key with
    | none => rfl
    | some a => exact absurd (List.mem_map_of_mem (get?_eq_some_iff.1 hget)) h

/-- Entries with new keys are added in their order. -/
theorem entries_foldl {t : Keyed κ α} {es : List (κ × α)}
    (distinct : ((t.entries ++ es).map (·.1)).Nodup) :
    (es.foldl (fun t e => t.insert e.1 e.2) t).entries = t.entries ++ es := by
  induction es generalizing t with
  | nil => exact (List.append_nil _).symm
  | cons e rest ih =>
    have hfresh : t.get? e.1 = none := by
      refine get?_eq_none_iff.2 fun hmem => ?_
      rw [List.map_append, List.map_cons, List.nodup_append] at distinct
      exact distinct.2.2 _ hmem _ List.mem_cons_self rfl
    have hinsert := entries_insert e.2 hfresh
    rw [List.append_cons] at distinct ⊢
    rw [List.foldl_cons, ← hinsert]
    exact ih (by rwa [hinsert])

end Keyed

/-! ## Cells -/

/-- What is read from a cell. -/
def Store.Cell.read? {α : Type} (r : Reader α) : Cell → Option α
  | .text s => (r.ofText s).toOption
  | .number => none

/-- A cell is read when it holds text that the reader accepts. -/
theorem Store.Cell.read?_eq_some {α : Type} {r : Reader α} {c : Cell} {a : α} :
    c.read? r = some a ↔ ∃ s, c = .text s ∧ r.ofText s = .ok a := by
  cases c with
  | number => simp [read?]
  | text s => cases h : r.ofText s <;> simp [read?, Except.toOption, h]

namespace Database

/-- Every row of a table can be fetched. -/
def Fetchable (rows : Keyed String Cell) : Prop := ∀ row ∈ rows.entries, ∃ s, row.2 = .text s

theorem fetchable_empty : Fetchable .empty := fun _ h => by cases h

/-- A row that is written holds text and can be fetched. -/
theorem Fetchable.insert {rows : Keyed String Cell} (h : Fetchable rows) (name text : String) :
    Fetchable (rows.insert name (.text text)) := by
  rintro ⟨other, cell⟩ hrow
  rcases Keyed.get?_insert_eq_some (Keyed.get?_eq_some_iff.2 hrow) with ⟨-, rfl⟩ | ⟨-, hget⟩
  · exact ⟨text, rfl⟩
  · exact h _ (Keyed.get?_eq_some_iff.1 hget)

theorem Fetchable.erase {rows : Keyed String Cell} (h : Fetchable rows) (name : String) :
    Fetchable (rows.erase name) :=
  fun row hrow => h row (List.mem_filter.1 hrow).1

/-- What is read from the rows of a table, with the names of the rows. -/
def readRows {α : Type} (r : Reader α) (rows : Keyed String Cell) : List (String × α) :=
  rows.entries.filterMap fun row => (row.2.read? r).map (row.1, ·)

/-- Rows that can be fetched are loaded as far as they can be read. -/
theorem loadRows_eq {α : Type} (r : Reader α) {rows : Keyed String Cell} (h : Fetchable rows) :
    loadRows r rows = .ok (readRows r rows) := by
  have htexts : ∀ {es : List (String × Cell)}, (∀ row ∈ es, ∃ s, row.2 = .text s) →
      ∃ texts, (es.mapM fun row => do return (row.1, ← fetch row.2)) = .ok texts ∧
        texts.filterMap (fun row => ((r.ofText row.2).toOption).map (row.1, ·)) =
          es.filterMap fun row => (row.2.read? r).map (row.1, ·) := by
    intro es hes
    induction es with
    | nil => exact ⟨[], rfl, rfl⟩
    | cons row rest ih =>
      obtain ⟨s, hs⟩ := hes row List.mem_cons_self
      obtain ⟨texts, hmap, heq⟩ := ih fun other hother => hes other (List.mem_cons_of_mem _ hother)
      refine ⟨(row.1, s) :: texts, ?_, ?_⟩
      · rw [List.mapM_cons, hmap, hs]
        rfl
      · rw [List.filterMap_cons, List.filterMap_cons, heq, hs]
        rfl
  obtain ⟨texts, hmap, heq⟩ := htexts h
  rw [loadRows, hmap, readRows, ← heq]
  rfl

/-- Rows that were loaded could be fetched, every one of them. -/
theorem fetchable_of_loadRows {α : Type} {r : Reader α} {rows : Keyed String Cell}
    {loaded : List (String × α)} (h : loadRows r rows = .ok loaded) : Fetchable rows := by
  intro row hrow
  obtain ⟨texts, htexts, -⟩ := ok_of_bind h
  cases hcell : row.2 with
  | text s => exact ⟨s, rfl⟩
  | number =>
    refine absurd htexts (mapM_ne_ok hrow (fun text hfetch => ?_) texts)
    rw [hcell] at hfetch
    cases hfetch

/-! ## Definitions -/

/-- The row of a name stores a definition that an engine would accept. -/
def Defines (db : Database) (strict : Bool) (name : String) (d : Definition) : Prop :=
  ∃ cell, db.definitions.get? name = some cell ∧ cell.read? Definition.reader = some d ∧
    d.problem? strict = none

/-- The stored definitions are registered under the names of their rows. -/
theorem get?_registryOf {db : Database} {strict : Bool} {name : String} {d : Definition} :
    (Engine.registryOf strict (readRows Definition.reader db.definitions)).get? name = some d ↔
      db.Defines strict name d := by
  have hentries :
      (Engine.registryOf strict (readRows Definition.reader db.definitions)).entries =
        (readRows Definition.reader db.definitions).filter
          fun row => (row.2.problem? strict).isNone := by
    refine Keyed.entries_foldl (t := .empty) ?_
    rw [Keyed.empty, List.nil_append]
    refine List.Nodup.sublist (List.filter_sublist.map _) ?_
    rw [List.Nodup, readRows, List.pairwise_map, List.pairwise_filterMap]
    refine (List.pairwise_map.1 db.definitions.unique).imp ?_
    rintro a b hne x hx y hy
    obtain ⟨-, -, rfl⟩ := Option.map_eq_some_iff.1 hx
    obtain ⟨-, -, rfl⟩ := Option.map_eq_some_iff.1 hy
    exact hne
  rw [Keyed.get?_eq_some_iff, hentries, List.mem_filter, readRows, List.mem_filterMap]
  constructor
  · rintro ⟨⟨⟨other, cell⟩, hrow, hread⟩, hproblem⟩
    obtain ⟨found, hfound, heq⟩ := Option.map_eq_some_iff.1 hread
    cases heq
    exact ⟨cell, Keyed.get?_eq_some_iff.2 hrow, hfound, Option.isNone_iff_eq_none.1 hproblem⟩
  · rintro ⟨cell, hget, hread, hproblem⟩
    refine ⟨⟨(name, cell), Keyed.get?_eq_some_iff.1 hget, ?_⟩, Option.isNone_iff_eq_none.2 hproblem⟩
    rw [hread]
    rfl

/-- The database after a definition was stored. -/
def withDefinition (db : Database) (d : Definition) : Database :=
  { db with definitions := db.definitions.insert d.name (.text d.toJson.print) }

/-- On a database that is writable, a definition is written under its name. -/
theorem saveDefinition_apply {db : Database} (writable : db.writable = true) (d : Definition) :
    saveDefinition d db = (.ok (), db.withDefinition d) := by
  rw [saveDefinition, upsertDefinition, write, if_pos writable,
    Cell.ofText_print (j := d.toJson) rfl]
  rfl

theorem deleteDefinition_apply {db : Database} (writable : db.writable = true) (name : String) :
    deleteDefinition name db = (.ok (), { db with definitions := db.definitions.erase name }) :=
  if_pos writable

/-- A definition that is stored takes the place of any other one of its name. -/
theorem defines_withDefinition {db : Database} {strict : Bool} {d : Definition}
    (back : Definition.reader.ofText d.toJson.print = .ok d) (accepted : d.problem? strict = none)
    {name : String} {found : Definition} :
    (db.withDefinition d).Defines strict name found ↔
      if name = d.name then found = d else db.Defines strict name found := by
  unfold Defines withDefinition
  split
  · next h =>
    subst h
    rw [Keyed.get?_insert_self]
    constructor
    · rintro ⟨cell, hcell, hread, -⟩
      cases hcell
      obtain ⟨s, hs, hread⟩ := Store.Cell.read?_eq_some.1 hread
      cases hs
      cases hread.symm.trans back
      rfl
    · rintro rfl
      exact ⟨_, rfl, Store.Cell.read?_eq_some.2 ⟨_, rfl, back⟩, accepted⟩
  · next h => rw [Keyed.get?_insert_of_ne _ _ h]

theorem defines_erase {db : Database} {strict : Bool} {name other : String} {found : Definition} :
    { db with definitions := db.definitions.erase name }.Defines strict other found ↔
      other ≠ name ∧ db.Defines strict other found := by
  unfold Defines
  by_cases h : other = name
  · subst h
    simp
  · simp [Keyed.get?_erase_of_ne _ h, h]

/-! ## Rules -/

/-- The rule that is loaded from a row. -/
def loaded? (known : String → Bool) (row : String × Cell) : Option Rule :=
  (row.2.read? Rule.reader).filter fun r => (r.problems known).isEmpty

/-- The rules that are loaded, in the order of their rows. -/
def loadable (db : Database) (known : String → Bool) : List Rule :=
  db.rules.entries.filterMap (loaded? known)

/-- Every rule is stored in the row of its name, and the numbers in it are denoted by their texts. -/
def Filed (rows : Keyed String Cell) : Prop :=
  ∀ row ∈ rows.entries, ∀ r, row.2.read? Rule.reader = some r → r.name = row.1 ∧ r.toJson.Exact

/-- A row gives a rule when it can be read and the rule has no problem; otherwise it is passed over. -/
theorem loaded?_eq_some {known : String → Bool} {row : String × Cell} {r : Rule} :
    loaded? known row = some r ↔
      row.2.read? Rule.reader = some r ∧ r.problems known = [] := by
  rw [loaded?, Option.filter_eq_some_iff, List.isEmpty_iff]

/-- The table of the stored rules. -/
theorem tableOf_readRows (known : String → Bool) (db : Database) :
    Engine.tableOf known ((readRows Rule.reader db.rules).map (·.2)) =
      (db.loadable known).foldl RuleTable.upsert .empty := by
  rw [Engine.tableOf, readRows, List.map_filterMap, List.filter_filterMap]
  congr 2
  funext row
  rw [Option.map_map]
  exact congrArg _ Option.map_id'

theorem filed_empty : Filed .empty := fun _ h => by cases h

/-- Rows stay filed under the names of their rules when the new one is. -/
theorem Filed.insert {rows : Keyed String Cell} (h : Filed rows) {name text : String}
    (hnew : ∀ r, Rule.reader.ofText text = .ok r → r.name = name ∧ r.toJson.Exact) :
    Filed (rows.insert name (.text text)) := by
  rintro ⟨other, cell⟩ hrow r hread
  rcases Keyed.get?_insert_eq_some (Keyed.get?_eq_some_iff.2 hrow) with ⟨rfl, rfl⟩ | ⟨-, hget⟩
  · obtain ⟨s, hs, hread⟩ := Store.Cell.read?_eq_some.1 hread
    cases hs
    exact hnew r hread
  · exact h _ (Keyed.get?_eq_some_iff.1 hget) r hread

theorem Filed.erase {rows : Keyed String Cell} (h : Filed rows) (name : String) :
    Filed (rows.erase name) :=
  fun row hrow => h row (List.mem_filter.1 hrow).1

variable {db : Database} {known : String → Bool}

theorem Filed.name_eq (filed : Filed db.rules) {row : String × Cell} (hrow : row ∈ db.rules.entries)
    {r : Rule} (h : loaded? known row = some r) : r.name = row.1 :=
  (filed row hrow r (loaded?_eq_some.1 h).1).1

/-- No two rules that are loaded from filed rows have one name. -/
theorem loadable_distinct (filed : Filed db.rules) (known : String → Bool) :
    ((db.loadable known).map (·.name)).Nodup := by
  rw [List.Nodup, List.pairwise_map, loadable, List.pairwise_filterMap]
  refine List.Pairwise.imp_of_mem ?_ (List.pairwise_map.1 db.rules.unique)
  intro a b ha hb hne x hx y hy
  rwa [filed.name_eq ha hx, filed.name_eq hb hy]

/-- Of the rows with other names the rules with other names are loaded. -/
theorem filter_loadable (filed : Filed db.rules) (known : String → Bool) (name : String) :
    (db.loadable known).filter (·.name ≠ name) =
      (Keyed.without name db.rules.entries).filterMap (loaded? known) := by
  rw [loadable, List.filter_filterMap, Keyed.without, List.filterMap_filter]
  refine List.filterMap_congr fun row hrow => ?_
  cases hload : loaded? known row with
  | none => simp
  | some r =>
    have hname := filed.name_eq hrow hload
    by_cases hne : row.1 = name <;> simp [Option.filter, hname, hne]

/-- Without a row, its rule is not loaded. -/
theorem loadable_dropped (filed : Filed db.rules) (known : String → Bool) (name : String) :
    { db with rules := db.rules.erase name }.loadable known =
      (db.loadable known).filter (·.name ≠ name) :=
  (filter_loadable filed known name).symm

theorem write_readonly {α : Type} (readonly : db.writable = false) (statement : Operation Database α) :
    write statement db =
      (.error (.error (refused 8 "attempt to write a readonly database")), db) :=
  if_neg (by simp [readonly])

/-- The database after a rule was stored. -/
def withRule (db : Database) (r : Rule) : Database :=
  { db with rules := db.rules.insert r.name (.text r.toJson.print) }

theorem saveRule_apply (writable : db.writable = true) (r : Rule) :
    saveRule r db = (.ok (), db.withRule r) := by
  rw [saveRule, upsertRule, write, if_pos writable, Cell.ofText_print (j := r.toJson) rfl]
  rfl

theorem deleteRule_apply (writable : db.writable = true) (name : String) :
    deleteRule name db = (.ok (), { db with rules := db.rules.erase name }) :=
  if_pos writable

theorem loaded?_print {r : Rule} (kept : r.Kept) (exact : r.toJson.Exact)
    (accepted : r.problems known = []) :
    loaded? known (r.name, .text r.toJson.print) = some r :=
  loaded?_eq_some.2 ⟨Store.Cell.read?_eq_some.2 ⟨_, rfl, kept.ofText_print exact⟩, accepted⟩

/-- A rule that is written is filed under its name. -/
theorem filed_withRule (filed : Filed db.rules) {r : Rule} (kept : r.Kept)
    (exact : r.toJson.Exact) : Filed (db.withRule r).rules := by
  refine filed.insert fun found hfound => ?_
  rw [kept.ofText_print exact] at hfound
  cases hfound
  exact ⟨rfl, exact⟩

/-- A rule that is stored takes the place of any other one of its name, or is the last one. -/
theorem loadable_saved (filed : Filed db.rules) {r : Rule}
    (loaded : loaded? known (r.name, .text r.toJson.print) = some r) :
    ∃ before after, (db.withRule r).loadable known = before ++ r :: after ∧
      (db.loadable known).filter (·.name ≠ r.name) = before ++ after ∧
      ∀ x ∈ db.loadable known, x ∈ after ↔ db.rules.Follows r.name x.name := by
  obtain ⟨before, after, hinsert, hwithout, hfollows⟩ :=
    db.rules.insert_split r.name (.text r.toJson.print)
  refine ⟨before.filterMap (loaded? known), after.filterMap (loaded? known), ?_, ?_, fun x hx => ?_⟩
  · rw [loadable, withRule, hinsert, List.filterMap_append, List.filterMap_cons_some loaded]
  · rw [filter_loadable filed, hwithout, List.filterMap_append]
  · have hsub : after ⊆ db.rules.entries := fun row hrow => by
      have hmem : row ∈ Keyed.without r.name db.rules.entries :=
        hwithout ▸ List.mem_append_right _ hrow
      exact (List.mem_filter.1 hmem).1
    rw [hfollows]
    constructor
    · intro hx
      obtain ⟨row, hrow, hload⟩ := List.mem_filterMap.1 hx
      exact List.mem_map.2 ⟨row, hrow, (filed.name_eq (hsub hrow) hload).symm⟩
    · intro hlater
      obtain ⟨row, hrow, hload⟩ := List.mem_filterMap.1 hx
      obtain ⟨other, hother, hname⟩ := List.mem_map.1 hlater
      have hsame : other = row := List.inj_on_of_nodup_map db.rules.unique (hsub hother) hrow
        (hname.trans (filed.name_eq hrow hload))
      exact List.mem_filterMap.2 ⟨row, hsame ▸ hother, hload⟩

/-- A rule that is stored enabled or disabled keeps its place. -/
theorem loadable_switched (filed : Filed db.rules) {r switched : Rule} {enabled : Bool}
    (heq : switched = { r with enabled }) (hr : r ∈ db.loadable known)
    (loaded : loaded? known (switched.name, .text switched.toJson.print) = some switched) :
    (db.withRule switched).loadable known = (db.loadable known).map (switch r.name enabled) := by
  have hname : switched.name = r.name := by rw [heq]
  obtain ⟨⟨key, old⟩, hfound, hload⟩ := List.mem_filterMap.1 hr
  obtain rfl : r.name = key := filed.name_eq hfound hload
  obtain ⟨before, after, split⟩ := List.append_of_mem hfound
  have hothers {rows : List (String × Cell)} (hsub : rows ⊆ db.rules.entries)
      (hfresh : r.name ∉ rows.map (·.1)) :
      (rows.filterMap (loaded? known)).map (switch r.name enabled) =
        rows.filterMap (loaded? known) := by
    refine RuleTable.map_switch_of_not_mem (fun x hx hxname => ?_) _
    obtain ⟨row, hrow, hxload⟩ := List.mem_filterMap.1 hx
    rw [filed.name_eq (hsub hrow) hxload] at hxname
    exact hfresh (hxname ▸ List.mem_map_of_mem hrow)
  have hbefore : before ⊆ db.rules.entries := split ▸ List.subset_append_left _ _
  have hafter : after ⊆ db.rules.entries := fun row hrow =>
    split ▸ List.mem_append_right _ (List.mem_cons_of_mem _ hrow)
  have hfresh := Keyed.not_mem_of_split split
  have hswitch : switch r.name enabled r = switched := (if_pos rfl).trans heq.symm
  rw [hname] at loaded
  rw [loadable, withRule, hname, Keyed.entries_insert_of_split split, List.filterMap_append,
    List.filterMap_cons_some loaded, loadable, split, List.filterMap_append,
    List.filterMap_cons_some hload, List.map_append, List.map_cons, hswitch,
    hothers hbefore hfresh.1, hothers hafter hfresh.2]

end Database

/-! ## Rules by their names -/

/-- A rule that is read back from its own text, and then accepted. -/
structure Rule.Storable (known : String → Bool) (r : Rule) : Prop where
  kept : r.Kept
  exact : r.toJson.Exact
  accepted : r.problems known = []

/-- The check does not mind whether a rule is enabled. -/
theorem Rule.problems_withEnabled (known : String → Bool) (r : Rule) (enabled : Bool) :
    { r with enabled }.problems known = r.problems known := by
  unfold Rule.problems
  rfl

theorem Rule.Plain.storable {known : String → Bool} {r : Rule} (h : r.Plain)
    (accepted : r.problems known = []) : r.Storable known :=
  ⟨h.kept, h.exact, accepted⟩

theorem Rule.Storable.withEnabled {known : String → Bool} {r : Rule} (h : r.Storable known)
    (enabled : Bool) : { r with enabled }.Storable known :=
  ⟨h.kept.withEnabled enabled, exact_withEnabled h.exact enabled,
    (problems_withEnabled known r enabled).trans h.accepted⟩

namespace Database

variable {db : Database} {known : String → Bool}

/-- The rule that has a name once the database is loaded. -/
def rule? (db : Database) (known : String → Bool) (name : String) : Option Rule :=
  ((db.loadable known).foldl RuleTable.upsert .empty).byName.get? name

theorem represents_loadable (filed : Filed db.rules) (known : String → Bool) :
    ((db.loadable known).foldl RuleTable.upsert .empty).Represents (db.loadable known) :=
  RuleTable.represents_foldl RuleTable.represents_empty (loadable_distinct filed known)

/-- The rule of a name is the one in the row of that name. -/
theorem rule?_eq (filed : Filed db.rules) (known : String → Bool) (name : String) :
    db.rule? known name = (db.rules.get? name).bind fun cell => loaded? known (name, cell) := by
  refine Option.ext fun r => ?_
  rw [rule?, (represents_loadable filed known).byName, loadable, List.mem_filterMap, Option.bind_eq_some_iff]
  constructor
  · rintro ⟨⟨⟨row, cell⟩, hrow, hload⟩, rfl⟩
    obtain rfl : r.name = row := filed.name_eq hrow hload
    exact ⟨cell, Keyed.get?_eq_some_iff.2 hrow, hload⟩
  · rintro ⟨cell, hget, hload⟩
    have hrow := Keyed.get?_eq_some_iff.1 hget
    exact ⟨⟨_, hrow, hload⟩, filed.name_eq hrow hload⟩

theorem filed_stored (filed : Filed db.rules) {r : Rule} (h : r.Storable known) :
    Filed (db.withRule r).rules :=
  filed_withRule filed h.kept h.exact

/-- To write a rule changes what is loaded under its name and nothing else. -/
theorem rule?_withRule (filed : Filed db.rules) {r : Rule} (h : r.Storable known) (name : String) :
    (db.withRule r).rule? known name = if r.name = name then some r else db.rule? known name := by
  have hrow : (db.withRule r).rule? known name =
      ((db.rules.insert r.name (.text r.toJson.print)).get? name).bind
        fun cell => loaded? known (name, cell) :=
    rule?_eq (filed_stored filed h) known name
  rw [hrow]
  split
  · next heq =>
    rw [← heq, Keyed.get?_insert_self]
    exact loaded?_print h.kept h.exact h.accepted
  · next hne => rw [Keyed.get?_insert_of_ne _ _ (Ne.symm hne), rule?_eq filed]

theorem rule?_erase (filed : Filed db.rules) (known : String → Bool) (name other : String) :
    { db with rules := db.rules.erase name }.rule? known other =
      if name = other then none else db.rule? known other := by
  rw [rule?_eq (filed.erase name), rule?_eq filed]
  show ((db.rules.erase name).get? other).bind _ = _
  split
  · next heq => rw [← heq, Keyed.get?_erase_self, Option.bind_none]
  · next hne => rw [Keyed.get?_erase_of_ne _ (Ne.symm hne)]

/-- A rule that is loaded can be stored again. -/
theorem storable_of_loaded? (filed : Filed db.rules) {row : String × Cell}
    (hrow : row ∈ db.rules.entries) {r : Rule} (h : loaded? known row = some r) :
    r.Storable known := by
  obtain ⟨hread, accepted⟩ := loaded?_eq_some.1 h
  obtain ⟨s, -, htext⟩ := Store.Cell.read?_eq_some.1 hread
  exact ⟨Rule.kept_of_ofText htext, (filed row hrow r hread).2, accepted⟩

/-- What was loaded can be stored and loaded again. -/
theorem storable_of_rule? (filed : Filed db.rules) {name : String} {r : Rule}
    (h : db.rule? known name = some r) : r.name = name ∧ r.Storable known := by
  rw [rule?_eq filed, Option.bind_eq_some_iff] at h
  obtain ⟨cell, hget, hload⟩ := h
  have hrow := Keyed.get?_eq_some_iff.1 hget
  exact ⟨filed.name_eq hrow hload, storable_of_loaded? filed hrow hload⟩

end Database

end WorkflowRules
