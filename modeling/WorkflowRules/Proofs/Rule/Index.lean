import WorkflowRules.Proofs.Rule.Table

/-!
# The two indexes of the rule table

The table has a copy of every rule under its name and another one in the bucket of its trigger. Each
operation changes both. After any sequence of operations the copies are the same, and what the table
is can be read off the sequence: which rules there are, and which of them come first.

* `RuleTable.Change`, `RuleTable.after` — the operations, and the table after a sequence of them
* `RuleTable.standing` — what a sequence leaves of one rule
* `RuleTable.LastPut` — when a rule was put in last
* `RuleTable.Indexed` — all that the table after a sequence tells of the sequence
* `RuleTable.indexed_after` — every sequence leads to such a table
-/

namespace WorkflowRules

open RuleTable (place)

namespace Rule

variable {R : Rule → Rule → Prop} {rules bucket : List Rule}

/-- Of two rules the first one has the higher priority, or the same one and comes first otherwise. -/
def Precedes (R : Rule → Rule → Prop) (a b : Rule) : Prop :=
  b.priority < a.priority ∨ (a.priority = b.priority ∧ R a b)

theorem Precedes.le {a b : Rule} (h : Precedes R a b) : b.priority ≤ a.priority := by
  rcases h with hlt | ⟨heq, -⟩
  · exact Int.le_of_lt hlt
  · exact Int.le_of_eq heq.symm

/-- A rule that is put in last comes behind those of its priority and keeps the others in place. -/
theorem pairwise_place {r : Rule} (h : bucket.Pairwise (Precedes R)) (last : ∀ x ∈ bucket, R x r) :
    (place r bucket).Pairwise (Precedes R) := by
  induction bucket with
  | nil => exact List.pairwise_singleton _ _
  | cons x rest ih =>
    obtain ⟨hx, hrest⟩ := List.pairwise_cons.1 h
    unfold place
    split
    · next hlt =>
      refine List.pairwise_cons.2 ⟨fun y hy => .inl ?_, h⟩
      rcases List.mem_cons.1 hy with rfl | hy
      · exact hlt
      · exact Int.lt_of_le_of_lt (hx y hy).le hlt
    · next hnot =>
      refine List.pairwise_cons.2
        ⟨fun y hy => ?_, ih hrest fun y hy => last y (List.mem_cons_of_mem _ hy)⟩
      rcases List.mem_cons.1 ((place_perm r rest).mem_iff.1 hy) with rfl | hy
      · rcases Int.lt_or_eq_of_le (Int.not_lt.1 hnot) with hlt | heq
        · exact .inl hlt
        · exact .inr ⟨heq.symm, last x List.mem_cons_self⟩
      · exact hx y hy

/-- Rules that are arranged are in the order of their priorities, and otherwise in the order they had. -/
theorem pairwise_arrange (h : rules.Pairwise R) : (arrange rules).Pairwise (Precedes R) := by
  induction rules using List.reverseRecOn with
  | nil => exact List.Pairwise.nil
  | append_singleton rules r ih =>
    obtain ⟨hrules, -, hlast⟩ := List.pairwise_append.1 h
    rw [arrange_append]
    exact pairwise_place (ih hrules) fun x hx => hlast x (mem_arrange.1 hx) r List.mem_cons_self

end Rule

namespace RuleTable

open Rule (arrange Precedes)

/-! ## Sequences of changes -/

/-- An operation on the table. -/
inductive Change where
  | upsert (r : Rule)
  | remove (name : String)
  | setEnabled (name : String) (enabled : Bool)

/-- The table after one change. -/
def Change.onTable (t : RuleTable) : Change → RuleTable
  | upsert r => t.upsert r
  | remove name => t.remove name
  | setEnabled name enabled => t.setEnabled name enabled

/-- The table after changes of the empty one, the first change first. -/
def after (changes : List Change) : RuleTable := changes.foldl Change.onTable empty

/-- What one change makes of the rule of a name. -/
def Change.onRule (name : String) (found : Option Rule) : Change → Option Rule
  | upsert r => if r.name = name then some r else found
  | remove other => if other = name then none else found
  | setEnabled other enabled =>
    if other = name then found.map fun r => { r with enabled } else found

/-- What changes leave of the rule of a name. -/
def standing (changes : List Change) (name : String) : Option Rule :=
  changes.foldl (Change.onRule name) none

/-- The change at this position is the last one that puts in a rule of this name. -/
def LastPut (changes : List Change) (name : String) (position : Nat) : Prop :=
  (∃ r, changes[position]? = some (.upsert r) ∧ r.name = name) ∧
    ∀ later r, position < later → changes[later]? = some (.upsert r) → r.name ≠ name

/-- The last time a rule was put in is before the last time another one was. -/
def PutEarlier (changes : List Change) (a b : Rule) : Prop :=
  ∃ m n, LastPut changes a.name m ∧ LastPut changes b.name n ∧ m < n

/-- All that the table after some changes tells of them. -/
structure Indexed (changes : List Change) (t : RuleTable) : Prop where
  /-- Under its name there is what the changes have left of a rule. -/
  standing : ∀ name, t.byName.get? name = standing changes name
  /-- A rule that is found by its name is in the bucket of its trigger, and the other way round. -/
  same : ∀ name r, t.byName.get? name = some r ↔ r ∈ t.bucket r.trigger ∧ r.name = name
  /-- A rule is in no bucket but that of its trigger. -/
  own : ∀ trigger, ∀ r ∈ t.bucket trigger, r.trigger = trigger
  /-- All buckets together hold the rules that are found by name, none of them twice. -/
  copies : t.byTrigger.values.flatten.Perm t.byName.values
  once : (t.byTrigger.values.flatten.map (·.name)).Nodup
  occupied : ∀ trigger, t.byTrigger.get? trigger ≠ some []
  /-- A bucket is in the order of priorities, and then in that of the last times of being put in. -/
  ordered : ∀ trigger, (t.bucket trigger).Pairwise (Precedes (PutEarlier changes))
  /-- Enabling and disabling rules does not move them. -/
  unmoved : ∀ name enabled trigger,
    (t.setEnabled name enabled).bucket trigger = (t.bucket trigger).map (switch name enabled)
  /-- A rule that is put in leaves nothing of that name anywhere else, and all others in place. -/
  replaced : ∀ r trigger,
    ((t.upsert r).bucket trigger).filter (·.name = r.name) = (if trigger = r.trigger then [r] else []) ∧
      ((t.upsert r).bucket trigger).filter (·.name ≠ r.name) =
        (t.bucket trigger).filter (·.name ≠ r.name)
  /-- Every rule is listed once, by trigger and then in the order of the bucket. -/
  listed : t.list.Perm t.byName.values
  triggers : t.list.Pairwise fun a b => a.trigger ≤ b.trigger
  buckets : ∀ trigger, t.list.filter (·.trigger = trigger) = t.bucket trigger

variable {t : RuleTable} {rules : List Rule} {changes : List Change}

theorem after_append (changes : List Change) (c : Change) :
    after (changes ++ [c]) = c.onTable (after changes) :=
  List.foldl_append

theorem standing_append (changes : List Change) (c : Change) (name : String) :
    standing (changes ++ [c]) name = c.onRule name (standing changes name) :=
  List.foldl_append

/-! ## What is found by name -/

/-- A name that was removed is not found any more, and all others are found as before. -/
theorem byName_remove (t : RuleTable) (name other : String) :
    (t.remove name).byName.get? other = if name = other then none else t.byName.get? other := by
  cases hfound : t.byName.get? name with
  | none =>
    rw [remove_missing hfound]
    split
    · next heq => rw [← heq, hfound]
    · rfl
  | some found =>
    rw [remove_found hfound]
    split
    · next heq => exact heq ▸ Keyed.get?_erase_self _ _
    · next hne => exact Keyed.get?_erase_of_ne _ (Ne.symm hne)

theorem byName_upsert (t : RuleTable) (r : Rule) (other : String) :
    (t.upsert r).byName.get? other = if r.name = other then some r else t.byName.get? other := by
  show ((t.remove r.name).byName.insert r.name r).get? other = _
  split
  · next heq => exact heq ▸ Keyed.get?_insert_self _ _ _
  · next hne => rw [Keyed.get?_insert_of_ne _ _ (Ne.symm hne), byName_remove, if_neg hne]

/-- A rule that was switched is found switched, and all others as before. -/
theorem byName_setEnabled (t : RuleTable) (name : String) (enabled : Bool) (other : String) :
    (t.setEnabled name enabled).byName.get? other =
      if name = other then (t.byName.get? other).map fun r => { r with enabled }
      else t.byName.get? other := by
  cases hfound : t.byName.get? name with
  | none =>
    rw [setEnabled_missing hfound]
    split
    · next heq => rw [← heq, hfound, Option.map_none]
    · rfl
  | some found =>
    rw [setEnabled_found hfound]
    split
    · next heq =>
      subst heq
      rw [hfound, Option.map_some]
      exact Keyed.get?_insert_self _ _ _
    · next hne => exact Keyed.get?_insert_of_ne _ _ (Ne.symm hne)

theorem byName_onTable (t : RuleTable) (c : Change) (name : String) :
    (c.onTable t).byName.get? name = c.onRule name (t.byName.get? name) := by
  cases c with
  | upsert r => exact byName_upsert t r name
  | remove other => exact byName_remove t other name
  | setEnabled other enabled => exact byName_setEnabled t other enabled name

theorem byName_after (changes : List Change) (name : String) :
    (after changes).byName.get? name = standing changes name := by
  induction changes using List.reverseRecOn with
  | nil => rfl
  | append_singleton changes c ih => rw [after_append, standing_append, byName_onTable, ih]

/-! ## The times at which rules were put in -/

theorem LastPut.lt_length {name : String} {n : Nat} (h : LastPut changes name n) :
    n < changes.length := by
  obtain ⟨⟨r, hr, -⟩, -⟩ := h
  exact (List.getElem?_eq_some_iff.1 hr).1

/-- A rule stays the last one put in under its name while others are put in. -/
theorem LastPut.append {name : String} {n : Nat} (h : LastPut changes name n) {c : Change}
    (other : ∀ r, c = .upsert r → r.name ≠ name) : LastPut (changes ++ [c]) name n := by
  have hn := h.lt_length
  obtain ⟨⟨r, hr, hname⟩, hlast⟩ := h
  refine ⟨⟨r, (List.getElem?_append_left hn).trans hr, hname⟩, fun later x hlater hx => ?_⟩
  by_cases hlt : later < changes.length
  · rw [List.getElem?_append_left hlt] at hx
    exact hlast later x hlater hx
  · rw [List.getElem?_append_right (Nat.le_of_not_lt hlt)] at hx
    have hmem := List.mem_singleton.1 (List.mem_of_getElem? hx)
    exact other x hmem.symm

theorem lastPut_append (changes : List Change) (r : Rule) :
    LastPut (changes ++ [.upsert r]) r.name changes.length := by
  refine ⟨⟨r, List.getElem?_concat_length, rfl⟩, fun later x hlater hx => ?_⟩
  have hlt := (List.getElem?_eq_some_iff.1 hx).1
  rw [List.length_append, List.length_singleton] at hlt
  omega

/-- The rules are in the order of the last times at which they were put in. -/
structure InTime (changes : List Change) (rules : List Rule) : Prop where
  put : ∀ r ∈ rules, ∃ n, LastPut changes r.name n
  order : rules.Pairwise (PutEarlier changes)

/-- A change that puts in no rule of these names leaves their times alone. -/
theorem InTime.append (h : InTime changes rules) {c : Change}
    (others : ∀ r, c = .upsert r → ∀ x ∈ rules, r.name ≠ x.name) : InTime (changes ++ [c]) rules where
  put x hx := by
    obtain ⟨n, hn⟩ := h.put x hx
    exact ⟨n, hn.append fun r hr => others r hr x hx⟩
  order := by
    refine h.order.imp_of_mem fun {a b} ha hb hab => ?_
    obtain ⟨m, n, hm, hn, hlt⟩ := hab
    exact ⟨m, n, hm.append fun r hr => others r hr a ha, hn.append fun r hr => others r hr b hb, hlt⟩

theorem InTime.sublist {fewer : List Rule} (h : InTime changes rules) (hs : fewer.Sublist rules) :
    InTime changes fewer where
  put x hx := h.put x (hs.subset hx)
  order := h.order.sublist hs

/-- A rule that is put in comes after all that were put in before. -/
theorem InTime.upsert (h : InTime changes rules) (r : Rule) :
    InTime (changes ++ [.upsert r]) (rules.filter (·.name ≠ r.name) ++ [r]) := by
  have hothers : InTime (changes ++ [.upsert r]) (rules.filter (·.name ≠ r.name)) := by
    refine (h.sublist List.filter_sublist).append fun other hother x hx hname => ?_
    obtain rfl := Change.upsert.inj hother
    exact of_decide_eq_true (List.mem_filter.1 hx).2 hname.symm
  have hlast := lastPut_append changes r
  constructor
  · intro x hx
    rcases List.mem_append.1 hx with hx | hx
    · exact hothers.put x hx
    · exact ⟨changes.length, (List.mem_singleton.1 hx).symm ▸ hlast⟩
  · refine List.pairwise_append.2
      ⟨hothers.order, List.pairwise_singleton _ _, fun x hx y hy => ?_⟩
    obtain ⟨n, hn⟩ := hothers.put x hx
    rw [List.mem_singleton.1 hy]
    refine ⟨n, changes.length, hn, hlast, ?_⟩
    -- the rule before it was put in by one of the changes before the last one
    have hlt := hn.lt_length
    rw [List.length_append, List.length_singleton] at hlt
    rcases Nat.lt_or_eq_of_le (Nat.le_of_lt_succ hlt) with hlt | rfl
    · exact hlt
    · obtain ⟨⟨z, hz, hzname⟩, -⟩ := hn
      rw [List.getElem?_concat_length] at hz
      obtain rfl := Change.upsert.inj (Option.some.inj hz)
      exact absurd hzname.symm (of_decide_eq_true (List.mem_filter.1 hx).2)

/-- To switch a rule does not count as putting it in. -/
theorem InTime.map_switch (h : InTime changes rules) (name : String) (enabled : Bool) :
    InTime changes (rules.map (switch name enabled)) where
  put x hx := by
    obtain ⟨y, hy, rfl⟩ := List.mem_map.1 hx
    rw [switch_name]
    exact h.put y hy
  order := by
    refine List.pairwise_map.2 (h.order.imp fun {a b} hab => ?_)
    rw [PutEarlier, switch_name, switch_name]
    exact hab

/-- A sequence of changes leads to a table that stands for its rules in the order of their times. -/
theorem exists_represents_after (changes : List Change) :
    ∃ rules, Represents (after changes) rules ∧ InTime changes rules := by
  induction changes using List.reverseRecOn with
  | nil => exact ⟨[], represents_empty, by simp, List.Pairwise.nil⟩
  | append_singleton changes c ih =>
    obtain ⟨rules, hrepresents, hintime⟩ := ih
    rw [after_append]
    cases c with
    | upsert r => exact ⟨_, hrepresents.upsert r, hintime.upsert r⟩
    | remove name =>
      refine ⟨_, hrepresents.remove name, (hintime.sublist List.filter_sublist).append ?_⟩
      exact fun r hr => by cases hr
    | setEnabled name enabled =>
      refine ⟨_, hrepresents.setEnabled name enabled, (hintime.map_switch name enabled).append ?_⟩
      exact fun r hr => by cases hr

/-! ## Both indexes -/

/-- All buckets, one after the other. -/
theorem flatten_values (t : RuleTable) :
    t.byTrigger.values.flatten = t.byTrigger.keys.flatMap t.bucket := by
  have hvalues : t.byTrigger.values = t.byTrigger.keys.map t.bucket := by
    rw [Keyed.values, Keyed.keys, List.map_map]
    refine List.map_congr_left fun entry hentry => ?_
    rw [Function.comp, bucket, Keyed.get?_eq_some_iff.2 hentry, Option.getD_some]
  rw [hvalues, List.flatMap]

/-- The buckets hold every rule once. -/
theorem Represents.flatten_perm (h : Represents t rules) :
    t.byTrigger.values.flatten.Perm rules := by
  rw [flatten_values]
  refine (List.Perm.flatMap (.refl _) fun trigger _ => ?_).trans
    (flatMap_filter_perm t.byTrigger.unique fun r hr => h.mem_keys.2 ⟨r, hr, rfl⟩)
  rw [h.bucket]
  exact Rule.arrange_perm _

/-- So do the names. -/
theorem Represents.values_perm (h : Represents t rules) : t.byName.values.Perm rules := by
  have hnames : t.byName.values.map (·.name) = t.byName.keys := by
    rw [Keyed.values, Keyed.keys, List.map_map]
    exact List.map_congr_left fun entry hentry => (h.byName.1 (Keyed.get?_eq_some_iff.2 hentry)).2
  have hkeys : (t.byName.values.map (·.name)).Nodup := by
    rw [hnames]
    exact t.byName.unique
  refine (List.perm_ext_iff_of_nodup (.of_map _ hkeys) (.of_map _ h.distinct)).2 fun r => ?_
  constructor
  · intro hr
    obtain ⟨entry, hentry, rfl⟩ := List.mem_map.1 hr
    exact (h.byName.1 (Keyed.get?_eq_some_iff.2 hentry)).1
  · intro hr
    exact List.mem_map.2 ⟨(r.name, r), Keyed.get?_eq_some_iff.1 (h.byName.2 ⟨hr, rfl⟩), rfl⟩

theorem Represents.bucket_setEnabled (h : Represents t rules) (name : String) (enabled : Bool)
    (trigger : String) :
    (t.setEnabled name enabled).bucket trigger = (t.bucket trigger).map (switch name enabled) := by
  rw [(h.setEnabled name enabled).bucket, filter_map_switch, h.bucket,
    Rule.map_arrange (switch_priority name enabled)]

/-- Of the name of a rule that is put in, there is nothing but that rule in the bucket of its trigger. -/
theorem Represents.filter_bucket_upsert (h : Represents t rules) (r : Rule) (trigger : String) :
    ((t.upsert r).bucket trigger).filter (·.name = r.name) =
      if trigger = r.trigger then [r] else [] := by
  have hnone : (rules.filter (·.name ≠ r.name)).filter (·.name = r.name) = [] :=
    List.filter_eq_nil_iff.2 fun x hx hname =>
      of_decide_eq_true (List.mem_filter.1 hx).2 (of_decide_eq_true hname)
  rw [(h.upsert r).bucket, Rule.filter_arrange, List.filter_comm, List.filter_append, hnone,
    List.nil_append, List.filter_singleton, decide_eq_true rfl, Bool.cond_true,
    List.filter_singleton]
  by_cases htrigger : trigger = r.trigger
  · rw [if_pos htrigger, decide_eq_true htrigger.symm]
    rfl
  · rw [if_neg htrigger, decide_eq_false (Ne.symm htrigger)]
    rfl

/-- A rule that is put in does not move any other. -/
theorem Represents.filter_bucket_upsert_ne (h : Represents t rules) (r : Rule) (trigger : String) :
    ((t.upsert r).bucket trigger).filter (·.name ≠ r.name) =
      (t.bucket trigger).filter (·.name ≠ r.name) := by
  have hrules : (rules.filter (·.name ≠ r.name) ++ [r]).filter (·.name ≠ r.name) =
      rules.filter (·.name ≠ r.name) := by
    simp
  rw [(h.upsert r).bucket, h.bucket, Rule.filter_arrange, Rule.filter_arrange, List.filter_comm,
    hrules, List.filter_comm]

/-- Rules are listed trigger by trigger, in the order of the triggers. -/
theorem Represents.pairwise_list (h : Represents t rules) :
    t.list.Pairwise fun a b => a.trigger ≤ b.trigger := by
  refine List.pairwise_flatMap.2 ⟨fun trigger _ => ?_, ?_⟩
  · refine List.pairwise_of_forall_mem_list fun a ha b hb => ?_
    have heq : a.trigger = b.trigger := (h.mem_bucket.1 ha).2.trans (h.mem_bucket.1 hb).2.symm
    exact heq ▸ String.le_refl _
  · refine (pairwise_sortBy _).imp fun {first second} hle a ha b hb => ?_
    rw [(h.mem_bucket.1 ha).2, (h.mem_bucket.1 hb).2]
    exact hle

/--
After any sequence of changes both indexes hold the same rules, each once, in the order of their
priorities and of the times at which they were put in.
-/
theorem indexed_after (changes : List Change) : Indexed changes (after changes) := by
  obtain ⟨rules, h, hintime⟩ := exists_represents_after changes
  exact
    { standing := byName_after changes
      same := fun name r => by rw [h.byName, h.mem_bucket, and_iff_left rfl]
      own := fun trigger r hr => (h.mem_bucket.1 hr).2
      copies := h.flatten_perm.trans h.values_perm.symm
      once := (h.flatten_perm.map _).nodup_iff.2 h.distinct
      occupied := h.occupied
      ordered := fun trigger => by
        rw [h.bucket]
        exact Rule.pairwise_arrange (hintime.order.sublist List.filter_sublist)
      unmoved := h.bucket_setEnabled
      replaced := fun r trigger =>
        ⟨h.filter_bucket_upsert r trigger, h.filter_bucket_upsert_ne r trigger⟩
      listed := h.list_perm.trans h.values_perm.symm
      triggers := h.pairwise_list
      buckets := h.filter_list }

end RuleTable

end WorkflowRules
