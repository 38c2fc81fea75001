import Mathlib.Data.List.Basic
import Mathlib.Data.List.Induction
import Mathlib.Data.List.Nodup
import Mathlib.Data.List.Perm.Basic
import WorkflowRules.Rule.Table

/-!
# What the rule table stands for

A table stands for a list of rules: its rules in the order in which they were last put in. Each bucket
is that list, restricted to one trigger and arranged by priority. Every operation on the table is a
simple operation on the list, and the order of evaluation depends on the list alone.

* `Rule.arrange` — rules put behind those of the same or a higher priority, one after the other
* `Rule.arrange_congr` — only the order among rules of the same priority counts
* `RuleTable.Represents` — the list that a table stands for
* `RuleTable.Represents.upsert`, `remove`, `setEnabled` — what the operations do to the list
* `RuleTable.Represents.list_perm`, `list_congr` — what is listed
-/

namespace WorkflowRules

open RuleTable (place)

namespace Rule

/-- Rules put behind those of the same or a higher priority, one after the other. -/
def arrange (rules : List Rule) : List Rule := rules.foldl (fun bucket r => place r bucket) []

/-- The rules are in descending order of their priorities. -/
def Ranked (rules : List Rule) : Prop := rules.Pairwise fun a b => b.priority ≤ a.priority

/-! ## Placing one rule -/

/-- A rule that is placed is added; none is lost. -/
theorem place_perm (r : Rule) (bucket : List Rule) : (place r bucket).Perm (r :: bucket) := by
  induction bucket with
  | nil => exact .refl _
  | cons x rest ih =>
    unfold place
    split
    · exact .refl _
    · exact (ih.cons x).trans (.swap r x rest)

/-- A rule that is placed into a ranked bucket leaves it ranked. -/
theorem ranked_place {r : Rule} {bucket : List Rule} (h : Ranked bucket) :
    Ranked (place r bucket) := by
  induction bucket with
  | nil => exact List.pairwise_singleton _ _
  | cons x rest ih =>
    obtain ⟨hx, hrest⟩ := List.pairwise_cons.1 h
    unfold place
    split
    · next hlt =>
      refine List.pairwise_cons.2 ⟨fun y hy => ?_, h⟩
      rcases List.mem_cons.1 hy with rfl | hy
      · exact Int.le_of_lt hlt
      · exact Int.le_trans (hx y hy) (Int.le_of_lt hlt)
    · next hnot =>
      refine List.pairwise_cons.2 ⟨fun y hy => ?_, ih hrest⟩
      rcases List.mem_cons.1 ((place_perm r rest).mem_iff.1 hy) with rfl | hy
      · exact Int.not_lt.1 hnot
      · exact hx y hy

theorem place_first {r : Rule} {bucket : List Rule} (h : ∀ x ∈ bucket, x.priority < r.priority) :
    place r bucket = r :: bucket := by
  cases bucket with
  | nil => rfl
  | cons x rest => rw [place, if_pos (h x List.mem_cons_self)]

/-- A rule that outranks no other comes last. -/
theorem place_last {r : Rule} {bucket : List Rule} (h : ∀ x ∈ bucket, r.priority ≤ x.priority) :
    place r bucket = bucket ++ [r] := by
  induction bucket with
  | nil => rfl
  | cons x rest ih =>
    have hx := Int.not_lt.2 (h x List.mem_cons_self)
    rw [place, if_neg hx, ih fun y hy => h y (List.mem_cons_of_mem _ hy), List.cons_append]

/-- Choosing rules and placing a rule can be done in either order. -/
theorem filter_place {bucket : List Rule} (h : Ranked bucket) (r : Rule) (q : Rule → Bool) :
    (place r bucket).filter q = if q r then place r (bucket.filter q) else bucket.filter q := by
  induction bucket with
  | nil => cases hq : q r <;> simp [place, hq]
  | cons x rest ih =>
    obtain ⟨hx, hrest⟩ := List.pairwise_cons.1 h
    -- either the rule goes to the front, before and after the choice, or past the first one
    by_cases hlt : x.priority < r.priority
    · have hbelow : ∀ y ∈ (x :: rest).filter q, y.priority < r.priority := by
        intro y hy
        rcases List.mem_cons.1 (List.mem_filter.1 hy).1 with rfl | hy
        · exact hlt
        · exact Int.lt_of_le_of_lt (hx y hy) hlt
      rw [place, if_pos hlt, place_first hbelow, List.filter_cons]
    · have hplace (others : List Rule) : place r (x :: others) = x :: place r others := by
        rw [place, if_neg hlt]
      rw [hplace, List.filter_cons, List.filter_cons, ih hrest]
      cases q r <;> cases q x <;> simp [hplace]

/-- Whatever leaves priorities alone may be done before or after a rule is placed. -/
theorem map_place {f : Rule → Rule} (hf : ∀ x, (f x).priority = x.priority) (r : Rule)
    (bucket : List Rule) : (place r bucket).map f = place (f r) (bucket.map f) := by
  induction bucket with
  | nil => rfl
  | cons x rest ih =>
    rw [List.map_cons, place, place, hf, hf]
    split
    · rfl
    · rw [List.map_cons, ih]

/-! ## Arranging rules -/

theorem arrange_append (rules : List Rule) (r : Rule) :
    arrange (rules ++ [r]) = place r (arrange rules) :=
  List.foldl_append

/-- To arrange rules is to reorder them. -/
theorem arrange_perm (rules : List Rule) : (arrange rules).Perm rules := by
  induction rules using List.reverseRecOn with
  | nil => exact .refl _
  | append_singleton rules r ih =>
    rw [arrange_append]
    exact (place_perm r _).trans ((ih.cons r).trans (List.perm_append_singleton r rules).symm)

theorem mem_arrange {rules : List Rule} {r : Rule} : r ∈ arrange rules ↔ r ∈ rules :=
  (arrange_perm rules).mem_iff

theorem ranked_arrange (rules : List Rule) : Ranked (arrange rules) := by
  induction rules using List.reverseRecOn with
  | nil => exact List.Pairwise.nil
  | append_singleton rules r ih =>
    rw [arrange_append]
    exact ranked_place ih

/-- A part of the rules is arranged as it stands in the whole. -/
theorem filter_arrange (rules : List Rule) (q : Rule → Bool) :
    (arrange rules).filter q = arrange (rules.filter q) := by
  induction rules using List.reverseRecOn with
  | nil => rfl
  | append_singleton rules r ih =>
    rw [arrange_append, filter_place (ranked_arrange rules), ih, List.filter_append, List.filter_cons]
    cases q r
    · simp
    · exact (arrange_append _ r).symm

theorem map_arrange {f : Rule → Rule} (hf : ∀ x, (f x).priority = x.priority) (rules : List Rule) :
    (arrange rules).map f = arrange (rules.map f) := by
  induction rules using List.reverseRecOn with
  | nil => rfl
  | append_singleton rules r ih =>
    rw [arrange_append, map_place hf, ih, List.map_append, List.map_singleton, arrange_append]

/-- Rules of one priority stay in their order. -/
theorem arrange_level {rules : List Rule} {priority : Int} (h : ∀ r ∈ rules, r.priority = priority) :
    arrange rules = rules := by
  induction rules using List.reverseRecOn with
  | nil => rfl
  | append_singleton rules r ih =>
    have hr := h r (List.mem_append_right _ List.mem_cons_self)
    have hrules : ∀ x ∈ rules, x.priority = priority := fun x hx => h x (List.mem_append_left _ hx)
    rw [arrange_append, ih hrules]
    exact place_last fun x hx => Int.le_of_eq (hr.trans (hrules x hx).symm)

/-- The rules of one priority. -/
def level (priority : Int) (rules : List Rule) : List Rule := rules.filter (·.priority = priority)

theorem level_arrange (priority : Int) (rules : List Rule) :
    level priority (arrange rules) = level priority rules := by
  rw [level, filter_arrange]
  exact arrange_level fun r hr => of_decide_eq_true (List.mem_filter.1 hr).2

/-- Ranked rules are determined by the order among the rules of each priority. -/
theorem Ranked.eq_of_level {a b : List Rule} (ha : Ranked a) (hb : Ranked b)
    (h : ∀ priority, level priority a = level priority b) : a = b := by
  have hmem {a b : List Rule} (h : ∀ priority, level priority a = level priority b) {r : Rule}
      (hr : r ∈ a) : r ∈ b := by
    have hlevel : r ∈ level r.priority a := List.mem_filter.2 ⟨hr, decide_eq_true rfl⟩
    rw [h] at hlevel
    exact (List.mem_filter.1 hlevel).1
  have hle {x : Rule} {rest : List Rule} (hrest : Ranked (x :: rest)) {r : Rule}
      (hr : r ∈ x :: rest) : r.priority ≤ x.priority := by
    rcases List.mem_cons.1 hr with rfl | hr
    · exact Int.le_refl _
    · exact (List.pairwise_cons.1 hrest).1 r hr
  induction a generalizing b with
  | nil =>
    cases b with
    | nil => rfl
    | cons y rest => cases hmem (fun p => (h p).symm) (List.mem_cons_self : y ∈ y :: rest)
  | cons x as ih =>
    cases b with
    | nil => cases hmem h (List.mem_cons_self : x ∈ x :: as)
    | cons y bs =>
      -- each of the two first rules has the highest priority of both lists
      have hsame : x.priority = y.priority :=
        Int.le_antisymm (hle hb (hmem h List.mem_cons_self))
          (hle ha (hmem (fun p => (h p).symm) List.mem_cons_self))
      have hx : level x.priority (x :: as) = x :: level x.priority as :=
        List.filter_cons_of_pos (decide_eq_true rfl)
      have hy : level x.priority (y :: bs) = y :: level x.priority bs :=
        List.filter_cons_of_pos (decide_eq_true hsame.symm)
      have hfirst := h x.priority
      rw [hx, hy] at hfirst
      obtain ⟨rfl, htails⟩ := List.cons.inj hfirst
      refine congrArg (x :: ·) (ih (List.pairwise_cons.1 ha).2 (List.pairwise_cons.1 hb).2 fun p => ?_)
      by_cases hp : x.priority = p
      · exact hp ▸ htails
      · have hother := h p
        unfold level at hother
        rwa [List.filter_cons_of_neg (by simpa using hp), List.filter_cons_of_neg (by simpa using hp)]
          at hother

/-- Only the order among rules of the same priority counts. -/
theorem arrange_congr {a b : List Rule} (h : ∀ priority, level priority a = level priority b) :
    arrange a = arrange b :=
  (ranked_arrange a).eq_of_level (ranked_arrange b) fun p => by rw [level_arrange, level_arrange, h]

end Rule

namespace RuleTable

open Rule (arrange)

/-! ## Representation -/

/-- The table stands for these rules, in the order in which they were last put in. -/
structure Represents (t : RuleTable) (rules : List Rule) : Prop where
  distinct : (rules.map (·.name)).Nodup
  byName : ∀ {name r}, t.byName.get? name = some r ↔ r ∈ rules ∧ r.name = name
  bucket : ∀ trigger, t.bucket trigger = arrange (rules.filter (·.trigger = trigger))
  occupied : ∀ trigger, t.byTrigger.get? trigger ≠ some []

variable {t : RuleTable} {rules : List Rule}

theorem represents_empty : Represents empty [] where
  distinct := List.nodup_nil
  byName := by simp [empty]
  bucket _ := rfl
  occupied _ := by simp [empty]

/-- Rules of the same name are the same. -/
theorem Represents.unique (h : Represents t rules) {a b : Rule} (ha : a ∈ rules) (hb : b ∈ rules)
    (hname : a.name = b.name) : a = b :=
  List.inj_on_of_nodup_map h.distinct ha hb hname

theorem Represents.mem_bucket (h : Represents t rules) {trigger : String} {r : Rule} :
    r ∈ t.bucket trigger ↔ r ∈ rules ∧ r.trigger = trigger := by
  rw [h.bucket, Rule.mem_arrange, List.mem_filter, decide_eq_true_iff]

/-- To set a bucket changes that one and no other. -/
theorem bucket_setBucket (t : RuleTable) (byName : Keyed String Rule) (trigger other : String)
    (b : List Rule) :
    bucket ⟨byName, setBucket t.byTrigger trigger b⟩ other =
      if other = trigger then b else t.bucket other := by
  unfold bucket setBucket
  by_cases hother : other = trigger
  · subst hother
    cases b <;> simp
  · cases b with
    | nil => simp [hother, Keyed.get?_erase_of_ne _ hother]
    | cons r rest => simp [hother, Keyed.get?_insert_of_ne _ _ hother]

/-- A bucket that gets empty is taken away. -/
theorem setBucket_occupied {buckets : Keyed String (List Rule)}
    (h : ∀ trigger, buckets.get? trigger ≠ some []) (trigger other : String) (b : List Rule) :
    (setBucket buckets trigger b).get? other ≠ some [] := by
  unfold setBucket
  by_cases hother : other = trigger
  · subst hother
    cases b <;> simp
  · cases b with
    | nil => simpa [Keyed.get?_erase_of_ne _ hother] using h other
    | cons r rest => simpa [Keyed.get?_insert_of_ne _ _ hother] using h other

/-! ## The operations -/

theorem remove_missing {name : String} (h : t.byName.get? name = none) : t.remove name = t := by
  rw [RuleTable.remove, h]

theorem remove_found {name : String} {found : Rule} (h : t.byName.get? name = some found) :
    t.remove name =
      { byName := t.byName.erase name
        byTrigger := setBucket t.byTrigger found.trigger
          ((t.bucket found.trigger).filter (·.name ≠ name)) } := by
  rw [RuleTable.remove, h]

theorem Represents.not_mem (h : Represents t rules) {name : String}
    (hmissing : t.byName.get? name = none) : ∀ r ∈ rules, r.name ≠ name := by
  intro r hr hname
  cases hmissing.symm.trans (h.byName.2 ⟨hr, hname⟩)

theorem filter_of_not_mem {name : String} (h : ∀ r ∈ rules, r.name ≠ name) :
    rules.filter (·.name ≠ name) = rules :=
  List.filter_eq_self.2 fun r hr => decide_eq_true (h r hr)

/-- Removing a rule leaves the other rules in their order. -/
theorem Represents.remove (h : Represents t rules) (name : String) :
    Represents (t.remove name) (rules.filter (·.name ≠ name)) := by
  cases hfound : t.byName.get? name with
  | none =>
    rwa [remove_missing hfound, filter_of_not_mem (h.not_mem hfound)]
  | some found =>
    obtain ⟨hmem, hname⟩ := h.byName.1 hfound
    rw [remove_found hfound]
    refine ⟨h.distinct.sublist (List.filter_sublist.map _), ?_, fun trigger => ?_, fun trigger => ?_⟩
    · intro other r
      rw [List.mem_filter]
      by_cases hother : other = name
      · subst hother
        simp +contextual
      · rw [Keyed.get?_erase_of_ne _ hother, h.byName]
        constructor
        · rintro ⟨hr, rfl⟩
          exact ⟨⟨hr, decide_eq_true hother⟩, rfl⟩
        · rintro ⟨⟨hr, -⟩, hrname⟩
          exact ⟨hr, hrname⟩
    · rw [bucket_setBucket, List.filter_comm, ← Rule.filter_arrange, ← h.bucket]
      split
      · next heq => rw [heq]
      · next hne =>
        -- the rule is in another bucket
        refine (filter_of_not_mem fun r hr hrname => hne ?_).symm
        obtain ⟨hr, htrigger⟩ := h.mem_bucket.1 hr
        rw [← htrigger, h.unique hr hmem (hrname.trans hname.symm)]
    · exact setBucket_occupied h.occupied _ _ _

/-- A rule that is put in first leaves the table under its old entry, and is then placed anew. -/
theorem upsert_eq (t : RuleTable) (r : Rule) :
    t.upsert r =
      { byName := (t.remove r.name).byName.insert r.name r
        byTrigger := setBucket (t.remove r.name).byTrigger r.trigger
          (place r ((t.remove r.name).bucket r.trigger)) } := by
  have hfull : place r ((t.remove r.name).bucket r.trigger) ≠ [] := by
    intro hempty
    have hperm := Rule.place_perm r ((t.remove r.name).bucket r.trigger)
    rw [hempty] at hperm
    cases hperm.nil_eq
  rw [RuleTable.upsert, setBucket, if_neg (by simpa using hfull)]

/-- A rule that is put in is the last one, and gives way where it was before. -/
theorem Represents.upsert (h : Represents t rules) (r : Rule) :
    Represents (t.upsert r) (rules.filter (·.name ≠ r.name) ++ [r]) := by
  have hothers := h.remove r.name
  have hfresh : ∀ x ∈ rules.filter (·.name ≠ r.name), x.name ≠ r.name := fun x hx =>
    of_decide_eq_true (List.mem_filter.1 hx).2
  rw [upsert_eq]
  -- a rule of this name is gone from the table before the new one is placed, so no name comes up twice
  refine ⟨?_, ?_, fun trigger => ?_,
    fun trigger => setBucket_occupied hothers.occupied _ _ _⟩
  · rw [List.map_append, List.map_singleton, List.nodup_append]
    refine ⟨hothers.distinct, List.pairwise_singleton _ _, fun name hname other hother heq => ?_⟩
    obtain ⟨x, hx, rfl⟩ := List.mem_map.1 hname
    exact hfresh x hx (heq.trans (List.mem_singleton.1 hother))
  · intro name x
    rw [List.mem_append, List.mem_singleton]
    by_cases hname : name = r.name
    · subst hname
      rw [Keyed.get?_insert_self, Option.some.injEq]
      constructor
      · rintro rfl
        exact ⟨.inr rfl, rfl⟩
      · rintro ⟨hx | rfl, hxname⟩
        · exact absurd hxname (hfresh x hx)
        · rfl
    · rw [Keyed.get?_insert_of_ne _ _ hname, hothers.byName]
      constructor
      · rintro ⟨hx, hxname⟩
        exact ⟨.inl hx, hxname⟩
      · rintro ⟨hx | rfl, hxname⟩
        · exact ⟨hx, hxname⟩
        · exact absurd hxname.symm hname
  · rw [bucket_setBucket, List.filter_append, List.filter_cons, List.filter_nil]
    by_cases htrigger : trigger = r.trigger
    · subst htrigger
      rw [if_pos rfl, if_pos (decide_eq_true rfl), Rule.arrange_append, hothers.bucket]
    · -- the bucket has lost the rule, if it was there, and gets nothing
      rw [if_neg htrigger, if_neg (by simpa using Ne.symm htrigger), List.append_nil]
      exact hothers.bucket trigger

/-- Enables or disables the rule of a name. -/
def switch (name : String) (enabled : Bool) (r : Rule) : Rule :=
  if r.name = name then { r with enabled } else r

theorem switch_name (name : String) (enabled : Bool) (r : Rule) :
    (switch name enabled r).name = r.name := by
  unfold switch
  split <;> rfl

theorem switch_priority (name : String) (enabled : Bool) (r : Rule) :
    (switch name enabled r).priority = r.priority := by
  unfold switch
  split <;> rfl

theorem switch_trigger (name : String) (enabled : Bool) (r : Rule) :
    (switch name enabled r).trigger = r.trigger := by
  unfold switch
  split <;> rfl

theorem map_switch_of_not_mem {name : String} (h : ∀ r ∈ rules, r.name ≠ name) (enabled : Bool) :
    rules.map (switch name enabled) = rules :=
  (List.map_congr_left fun r hr => if_neg (h r hr)).trans (List.map_id' rules)

/-- To exchange the rule in its bucket is to switch it where it stands. -/
theorem substitute_eq_map {found : Rule} {enabled : Bool} {bucket : List Rule}
    (distinct : (bucket.map (·.name)).Nodup) (hfound : ∀ r ∈ bucket, r.name = found.name → r = found) :
    substitute { found with enabled } bucket = bucket.map (switch found.name enabled) := by
  induction bucket with
  | nil => rfl
  | cons x rest ih =>
    obtain ⟨hx, hrest⟩ := List.nodup_cons.1 distinct
    rw [substitute, List.map_cons]
    by_cases hname : x.name = found.name
    · obtain rfl := hfound x List.mem_cons_self hname
      have hothers : rest.map (switch x.name enabled) = rest :=
        map_switch_of_not_mem (fun y hy heq => hx (List.mem_map.2 ⟨y, hy, heq⟩)) enabled
      rw [if_pos rfl, hothers, switch, if_pos rfl]
    · rw [if_neg hname, ih hrest fun r hr => hfound r (List.mem_cons_of_mem _ hr), switch,
        if_neg hname]

theorem setEnabled_missing {name : String} {enabled : Bool} (h : t.byName.get? name = none) :
    t.setEnabled name enabled = t := by
  rw [RuleTable.setEnabled, h]

/-- A rule is switched in both indexes. -/
theorem setEnabled_found {name : String} {enabled : Bool} {found : Rule}
    (h : t.byName.get? name = some found) :
    t.setEnabled name enabled =
      { byName := t.byName.insert name { found with enabled }
        byTrigger := setBucket t.byTrigger found.trigger
          (substitute { found with enabled } (t.bucket found.trigger)) } := by
  rw [RuleTable.setEnabled, h]

theorem filter_map_switch (name : String) (enabled : Bool) (trigger : String) :
    (rules.map (switch name enabled)).filter (·.trigger = trigger) =
      (rules.filter (·.trigger = trigger)).map (switch name enabled) := by
  rw [List.filter_map]
  congr 1
  exact List.filter_congr fun r _ => by rw [Function.comp, switch_trigger]

section Switched

variable {found : Rule} (h : Represents t rules) (hmem : found ∈ rules)

include h hmem

/-- In the list with the rule switched, only its own name gives something else. -/
theorem Represents.mem_map_switch (enabled : Bool) {name : String} {r : Rule} :
    r ∈ rules.map (switch found.name enabled) ∧ r.name = name ↔
      if name = found.name then r = { found with enabled } else r ∈ rules ∧ r.name = name := by
  have hswitch : switch found.name enabled found = { found with enabled } := if_pos rfl
  rw [List.mem_map]
  split
  · next hname =>
    subst hname
    constructor
    · rintro ⟨⟨x, hx, rfl⟩, hxname⟩
      rw [switch_name] at hxname
      rw [h.unique hx hmem hxname, hswitch]
    · rintro rfl
      exact ⟨⟨found, hmem, hswitch⟩, rfl⟩
  · next hname =>
    constructor
    · rintro ⟨⟨x, hx, rfl⟩, hxname⟩
      rw [switch_name] at hxname
      have hkept : switch found.name enabled x = x :=
        if_neg fun heq => hname (hxname.symm.trans heq)
      rw [hkept]
      exact ⟨hx, hxname⟩
    · rintro ⟨hr, rfl⟩
      exact ⟨⟨r, hr, if_neg hname⟩, rfl⟩

/-- The bucket with the rule exchanged is the bucket of the list with the rule switched. -/
theorem Represents.substitute_bucket (enabled : Bool) :
    substitute { found with enabled } (t.bucket found.trigger) =
      (t.bucket found.trigger).map (switch found.name enabled) := by
  rw [h.bucket]
  refine substitute_eq_map ?_ fun r hr hname => ?_
  · exact ((Rule.arrange_perm _).map _).nodup_iff.2
      (h.distinct.sublist (List.filter_sublist.map _))
  · exact h.unique (List.mem_filter.1 (Rule.mem_arrange.1 hr)).1 hmem hname

theorem Represents.map_switch_bucket (enabled : Bool) {trigger : String}
    (hne : trigger ≠ found.trigger) :
    (t.bucket trigger).map (switch found.name enabled) = t.bucket trigger := by
  refine map_switch_of_not_mem (fun r hr hname => hne ?_) enabled
  obtain ⟨hr, htrigger⟩ := h.mem_bucket.1 hr
  rw [← htrigger, h.unique hr hmem hname]

end Switched

/-- Enabling or disabling a rule leaves all rules in their order. -/
theorem Represents.setEnabled (h : Represents t rules) (name : String) (enabled : Bool) :
    Represents (t.setEnabled name enabled) (rules.map (switch name enabled)) := by
  cases hfound : t.byName.get? name with
  | none =>
    rwa [setEnabled_missing hfound, map_switch_of_not_mem (h.not_mem hfound)]
  | some found =>
    obtain ⟨hmem, rfl⟩ := h.byName.1 hfound
    rw [setEnabled_found hfound]
    refine ⟨?_, ?_, fun trigger => ?_, fun trigger => setBucket_occupied h.occupied _ _ _⟩
    · have hnames : (·.name) ∘ switch found.name enabled = (·.name) :=
        funext (switch_name found.name enabled)
      rw [List.map_map, hnames]
      exact h.distinct
    · intro name r
      rw [h.mem_map_switch hmem enabled]
      split
      · next hname =>
        subst hname
        rw [Keyed.get?_insert_self, Option.some.injEq, eq_comm]
      · next hname => rw [Keyed.get?_insert_of_ne _ _ hname, h.byName]
    · rw [filter_map_switch, ← Rule.map_arrange (switch_priority found.name enabled), ← h.bucket,
        bucket_setBucket, h.substitute_bucket hmem]
      split
      · next heq => rw [heq]
      · next hne => exact (h.map_switch_bucket hmem enabled hne).symm

theorem substitute_self {r : Rule} {bucket : List Rule} (h : ∀ x ∈ bucket, x.name = r.name → x = r) :
    substitute r bucket = bucket := by
  induction bucket with
  | nil => rfl
  | cons x rest ih =>
    rw [substitute]
    split
    · next hname => rw [h x List.mem_cons_self hname]
    · rw [ih fun y hy => h y (List.mem_cons_of_mem _ hy)]

/-- To set a bucket to what it is changes nothing. -/
theorem setBucket_self {trigger : String} (h : t.bucket trigger ≠ []) :
    setBucket t.byTrigger trigger (t.bucket trigger) = t.byTrigger := by
  rw [setBucket, if_neg (by simpa using h)]
  refine Keyed.insert_of_get? ?_
  unfold bucket at h ⊢
  cases hget : t.byTrigger.get? trigger with
  | none => simp [hget] at h
  | some b => rfl

/-- Enabling a rule that is enabled, or disabling one that is disabled, changes nothing. -/
theorem Represents.setEnabled_self (h : Represents t rules) {name : String} {r : Rule}
    (found : t.byName.get? name = some r) : t.setEnabled name r.enabled = t := by
  obtain ⟨hmem, hname⟩ := h.byName.1 found
  have hbucket : r ∈ t.bucket r.trigger := h.mem_bucket.2 ⟨hmem, rfl⟩
  have hsubstitute : substitute r (t.bucket r.trigger) = t.bucket r.trigger :=
    substitute_self fun x hx heq => h.unique (h.mem_bucket.1 hx).1 hmem heq
  rw [setEnabled_found found]
  show RuleTable.mk (t.byName.insert name r)
    (setBucket t.byTrigger r.trigger (substitute r (t.bucket r.trigger))) = t
  rw [Keyed.insert_of_get? found, hsubstitute, setBucket_self (List.ne_nil_of_mem hbucket)]

/-- Rules with different names are put into a table in their order. -/
theorem represents_foldl {added : List Rule} (h : Represents t rules)
    (distinct : ((rules ++ added).map (·.name)).Nodup) :
    Represents (added.foldl RuleTable.upsert t) (rules ++ added) := by
  induction added generalizing t rules with
  | nil => rwa [List.append_nil]
  | cons r rest ih =>
    have hfresh : rules.filter (·.name ≠ r.name) = rules := by
      refine filter_of_not_mem fun x hx hname => ?_
      rw [List.map_append, List.map_cons, List.nodup_append] at distinct
      exact distinct.2.2 _ (List.mem_map_of_mem hx) _ List.mem_cons_self hname
    have hnext := h.upsert r
    rw [hfresh] at hnext
    rw [List.append_cons] at distinct ⊢
    exact ih hnext distinct

/-! ## What is listed -/

/-- Rules that are gathered trigger by trigger are the same rules. -/
theorem flatMap_filter_perm {triggers : List String} (hnodup : triggers.Nodup) {rules : List Rule}
    (h : ∀ r ∈ rules, r.trigger ∈ triggers) :
    (triggers.flatMap fun trigger => rules.filter (·.trigger = trigger)).Perm rules := by
  induction triggers generalizing rules with
  | nil =>
    cases rules with
    | nil => exact .refl _
    | cons r rest => cases h r List.mem_cons_self
  | cons trigger rest ih =>
    obtain ⟨hfresh, hnodup⟩ := List.nodup_cons.1 hnodup
    -- the other triggers list nothing of the rules of this one
    have hothers : rest.flatMap (fun other => rules.filter (·.trigger = other)) =
        rest.flatMap fun other =>
          (rules.filter fun r => !decide (r.trigger = trigger)).filter (·.trigger = other) := by
      refine List.flatMap_congr fun other hother => ?_
      rw [List.filter_filter]
      refine List.filter_congr fun r _ => ?_
      by_cases hr : r.trigger = other
      · have hne : r.trigger ≠ trigger := fun heq => hfresh (heq ▸ hr ▸ hother)
        simp [hne]
      · simp [hr]
    rw [List.flatMap_cons, hothers]
    refine ((ih hnodup fun r hr => ?_).append_left _).trans (List.filter_append_perm _ rules)
    obtain ⟨hr, hne⟩ := List.mem_filter.1 hr
    exact (List.mem_cons.1 (h r hr)).resolve_left (by simpa using hne)

/-- A trigger is indexed exactly when a rule has it. -/
theorem Represents.mem_keys (h : Represents t rules) {trigger : String} :
    trigger ∈ t.byTrigger.keys ↔ ∃ r ∈ rules, r.trigger = trigger := by
  constructor
  · intro hkey
    obtain ⟨⟨key, b⟩, hentry, rfl⟩ := List.mem_map.1 hkey
    have hget := Keyed.get?_eq_some_iff.2 hentry
    obtain ⟨r, rest, rfl⟩ := List.exists_cons_of_ne_nil fun hb => h.occupied key (hb ▸ hget)
    refine ⟨r, h.mem_bucket.1 ?_⟩
    rw [RuleTable.bucket, hget]
    exact List.mem_cons_self
  · rintro ⟨r, hr⟩
    have hbucket := h.mem_bucket.2 hr
    rw [RuleTable.bucket] at hbucket
    cases hget : t.byTrigger.get? trigger with
    | none =>
      rw [hget] at hbucket
      cases hbucket
    | some b => exact List.mem_map_of_mem (Keyed.get?_eq_some_iff.1 hget)

/-- Every rule is listed once. -/
theorem Represents.list_perm (h : Represents t rules) : t.list.Perm rules := by
  unfold RuleTable.list
  refine ((List.mergeSort_perm _ _).flatMap_right _).trans ?_
  refine (List.Perm.flatMap (.refl _) fun trigger _ => ?_).trans
    (flatMap_filter_perm t.byTrigger.unique fun r hr => h.mem_keys.2 ⟨r, hr, rfl⟩)
  rw [h.bucket]
  exact Rule.arrange_perm _

/-- Of the list, the rules of a trigger are its bucket. -/
theorem Represents.filter_list (h : Represents t rules) (trigger : String) :
    t.list.filter (·.trigger = trigger) = t.bucket trigger := by
  have hown : (t.bucket trigger).filter (·.trigger = trigger) = t.bucket trigger :=
    List.filter_eq_self.2 fun r hr => decide_eq_true (h.mem_bucket.1 hr).2
  by_cases hkey : trigger ∈ t.byTrigger.keys
  · have hsorted : (sortBy id t.byTrigger.keys).Perm t.byTrigger.keys := List.mergeSort_perm _ _
    have hunique := hsorted.nodup_iff.2 t.byTrigger.unique
    obtain ⟨before, after, hsplit⟩ := List.append_of_mem (hsorted.mem_iff.2 hkey)
    rw [hsplit, List.nodup_middle, List.nodup_cons, List.mem_append, not_or] at hunique
    -- the buckets before and behind are those of other triggers
    have hothers {triggers : List String} (hfresh : trigger ∉ triggers) :
        (triggers.flatMap t.bucket).filter (·.trigger = trigger) = [] := by
      refine List.filter_eq_nil_iff.2 fun r hr hrtrigger => ?_
      obtain ⟨other, hother, hr⟩ := List.mem_flatMap.1 hr
      obtain rfl := (h.mem_bucket.1 hr).2.symm.trans (of_decide_eq_true hrtrigger)
      exact hfresh hother
    rw [RuleTable.list, hsplit, List.flatMap_append, List.flatMap_cons, List.filter_append,
      List.filter_append, hothers hunique.1.1, hothers hunique.1.2, hown, List.nil_append,
      List.append_nil]
  · have hnone : ∀ r ∈ rules, r.trigger ≠ trigger := fun r hr heq => hkey (h.mem_keys.2 ⟨r, hr, heq⟩)
    have hbucket : t.bucket trigger = [] := List.eq_nil_iff_forall_not_mem.2 fun r hr =>
      hnone r (h.mem_bucket.1 hr).1 (h.mem_bucket.1 hr).2
    rw [hbucket]
    exact List.filter_eq_nil_iff.2 fun r hr hrtrigger =>
      hnone r (h.list_perm.mem_iff.1 hr) (of_decide_eq_true hrtrigger)

theorem pairwise_sortBy (names : List String) : (sortBy id names).Pairwise (· ≤ ·) := by
  refine (List.pairwise_mergeSort (fun a b c hab hbc => ?_) (fun a b => ?_) names).imp
    of_decide_eq_true
  · exact decide_eq_true (String.le_trans (of_decide_eq_true hab) (of_decide_eq_true hbc))
  · simpa using String.le_total a b

/-- Names are sorted in one way only. -/
theorem sortBy_congr {a b : List String} (h : a.Perm b) : sortBy id a = sortBy id b :=
  List.Perm.eq_of_pairwise (fun _ _ _ _ => String.le_antisymm) (pairwise_sortBy a)
    (pairwise_sortBy b) ((List.mergeSort_perm _ _).trans (h.trans (List.mergeSort_perm _ _).symm))

/-- What is listed depends on the buckets alone, and tells all of them. -/
theorem Represents.list_eq_iff {t' : RuleTable} {rules' : List Rule} (h : Represents t rules)
    (h' : Represents t' rules') :
    t.list = t'.list ↔ ∀ trigger, t.bucket trigger = t'.bucket trigger := by
  constructor
  · intro hlist trigger
    rw [← h.filter_list, ← h'.filter_list, hlist]
  · intro hbucket
    have hkeys : t.byTrigger.keys.Perm t'.byTrigger.keys := by
      refine (List.perm_ext_iff_of_nodup t.byTrigger.unique t'.byTrigger.unique).2 fun trigger => ?_
      have hrules (r : Rule) : r ∈ rules ∧ r.trigger = trigger ↔ r ∈ rules' ∧ r.trigger = trigger := by
        rw [← h.mem_bucket, ← h'.mem_bucket, hbucket]
      exact h.mem_keys.trans ((exists_congr hrules).trans h'.mem_keys.symm)
    rw [RuleTable.list, RuleTable.list, sortBy_congr hkeys, funext hbucket]

end RuleTable

end WorkflowRules
