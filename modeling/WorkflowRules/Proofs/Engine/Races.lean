import WorkflowRules.Proofs.Engine.Lapses
import WorkflowRules.Proofs.Rule.Index

/-!
# Two calls that change rules at the same time

A call that creates, switches or removes a rule takes two steps: a statement on the database, and a
change of the table in memory. Another call may take its own steps in between. A creation and a removal
begin with the database, and a switch begins with the table.

What an engine has in memory and what it has stored are two copies of its rules. In either copy the call
that changes it last has the last word. After two calls on one rule the copies differ if, and only if,
not the same call has the last word in both, and the calls leave different rules.

* `RuleCall.start`, `RuleCall.Rest.finish` — the two steps of a call
* `race` — the steps of two calls in some order
* `Engine.Holds` — the two copies of the rules of an engine
* `Engine.race_agrees_iff` — when the copies are the same after two calls, as they were before
* `Engine.copies_differ` — they need not be
-/

namespace WorkflowRules

open Database (Filed loaded?)

/-! ## Calls and their steps -/

/-- A call that changes a rule. -/
inductive RuleCall where
  | create (r : Rule)
  | setEnabled (name : String) (enabled : Bool)
  | remove (name : String)

namespace RuleCall

open Engine

/-- What is left to do of a call after its first step. -/
inductive Rest where
  /-- The rule has to be put into the table. -/
  | enter (r : Rule)
  /-- The rule has to be stored. -/
  | store (r : Rule)
  /-- The rule has to be removed from the table. -/
  | drop (name : String)

/-- The first step of a call. -/
def start : RuleCall → Operation Engine Rest
  | create r => do
    checkRule r
    persist (Database.saveRule r)
    return .enter r
  | setEnabled name enabled => do
    return .store (← switchRule name enabled)
  | remove name => do
    persist (Database.deleteRule name)
    return .drop name

/-- The second step of a call, which gives its answer. -/
def Rest.finish : Rest → Operation Engine Bool
  | enter r => do
    enterRule r
    return true
  | store r => do
    persist (Database.saveRule r)
    return true
  | drop name => dropRule name

/-- The operation that is carried out in two steps. -/
def management : RuleCall → Management
  | create r => .createRule r
  | setEnabled name enabled => .setEnabled name enabled
  | remove name => .removeRule name

/-- One step after the other they are the whole operation. -/
theorem start_finish (c : RuleCall) : c.start >>= Rest.finish = c.management.operation := by
  cases c with
  | create r => simp [start, Rest.finish, management, Management.operation, Engine.createRule]
  | setEnabled name enabled =>
    simp [start, Rest.finish, management, Management.operation, Engine.setEnabled]
  | remove name => simp [start, Rest.finish, management, Management.operation, Engine.removeRule]

/-- The name of the rule that a call changes. -/
def name : RuleCall → String
  | create r => r.name
  | setEnabled name _ => name
  | remove name => name

/-- What a call makes of the rule of its name. -/
def leaves : RuleCall → Option Rule → Option Rule
  | create r, _ => some r
  | setEnabled _ enabled, held => held.map fun r => { r with enabled }
  | remove _, _ => none

/-- A rule that is created has been read from a text, and the numbers in it are denoted by theirs. -/
def Decoded (c : RuleCall) : Prop := ∀ r, c = create r → (Command.createRule r).Decoded

end RuleCall

/-! ## Two copies of the rules -/

/-- Where an engine with a database has its rules. -/
inductive Side where
  | rows
  | table
deriving DecidableEq

/-- The other place. -/
def Side.other : Side → Side
  | rows => table
  | table => rows

/-- The side that a call changes first. -/
def RuleCall.first : RuleCall → Side
  | setEnabled .. => .table
  | create _ | remove _ => .rows

/-- The rules by their names, on either side. -/
abbrev Copies : Type := Side → String → Option Rule

/-- Puts a rule under a name on one side, or leaves nothing there. -/
def Copies.put (copies : Copies) (side : Side) (name : String) (r : Option Rule) : Copies :=
  fun s n => if s = side ∧ name = n then r else copies s n

/-- An order of the steps of two calls, of which the one that begins is named first. -/
inductive Interleaving where
  /-- The second call begins when the first one has returned. -/
  | apart
  /-- Both calls begin, and the first one finishes first. -/
  | alternating
  /-- The second call takes place between the two steps of the first one. -/
  | nested

/-- Two calls that take their steps in some order, with both answers. -/
def race : Interleaving → RuleCall → RuleCall → Operation Engine (Bool × Bool)
  | .apart, c, d => do
    let p ← c.start
    let x ← p.finish
    let q ← d.start
    let y ← q.finish
    return (x, y)
  | .alternating, c, d => do
    let p ← c.start
    let q ← d.start
    let x ← p.finish
    let y ← q.finish
    return (x, y)
  | .nested, c, d => do
    let p ← c.start
    let q ← d.start
    let y ← q.finish
    let x ← p.finish
    return (x, y)

/-- Calls that do not overlap are carried out one after the other. -/
theorem race_apart (c d : RuleCall) :
    race .apart c d = do
      let x ← c.management.operation
      let y ← d.management.operation
      return (x, y) := by
  rw [← c.start_finish, ← d.start_finish, bind_assoc]
  simp only [race, bind_assoc]

/-- The second call has the last word on the side that the first one changes first, and not on the other. -/
def Interleaving.Crosses : Interleaving → RuleCall → RuleCall → Prop
  | apart, _, _ => False
  | alternating, c, d => c.first ≠ d.first
  | nested, _, _ => True

instance (o : Interleaving) (c d : RuleCall) : Decidable (o.Crosses c d) :=
  match o with
  | .apart => inferInstanceAs (Decidable False)
  | .alternating => inferInstanceAs (Decidable (c.first ≠ d.first))
  | .nested => inferInstanceAs (Decidable True)

/-! ## What is left in the copies -/

namespace Copies

variable {copies : Copies} {o : Interleaving} {c d : RuleCall} {v w : Option Rule}

theorem put_apply (side : Side) (name : String) (r : Option Rule) (s : Side) (n : String) :
    copies.put side name r s n = if s = side ∧ name = n then r else copies s n := rfl

/-- Both copies are the same. -/
def Agree (copies : Copies) : Prop := ∀ name, copies .rows name = copies .table name

theorem agree_iff (side : Side) : copies.Agree ↔ ∀ n, copies side n = copies side.other n := by
  cases side with
  | rows => exact Iff.rfl
  | table => exact forall_congr' fun _ => eq_comm

/-- The copies after two calls that put these rules under their names. -/
def after (copies : Copies) (c d : RuleCall) (v w : Option Rule) : Interleaving → Copies
  | .apart =>
    (((copies.put c.first c.name v).put c.first.other c.name v).put d.first d.name w).put
      d.first.other d.name w
  | .alternating =>
    (((copies.put c.first c.name v).put d.first d.name w).put c.first.other c.name v).put
      d.first.other d.name w
  | .nested =>
    (((copies.put c.first c.name v).put d.first d.name w).put d.first.other d.name w).put
      c.first.other c.name v

/-- The rule that the second call finds in the table when it begins. -/
def found (copies : Copies) (c d : RuleCall) (v : Option Rule) : Interleaving → Option Rule
  | .apart => ((copies.put c.first c.name v).put c.first.other c.name v) .table d.name
  | .alternating | .nested => (copies.put c.first c.name v) .table d.name

/-- On the side that the first call changes first, the second call has the last word. -/
theorem after_first (copies : Copies) (o : Interleaving) (c d : RuleCall) (v w : Option Rule)
    (n : String) :
    copies.after c d v w o c.first n =
      if d.name = n then w else if c.name = n then v else copies c.first n := by
  -- of the four changes the last one on this side and under this name counts
  cases o <;> cases hc : c.first <;> cases hd : d.first <;>
    simp only [after, put_apply, Side.other, hc, hd] <;> grind

/-- On the other side the second call has the last word unless the calls cross. -/
theorem after_other (copies : Copies) (o : Interleaving) (c d : RuleCall) (v w : Option Rule)
    (n : String) :
    copies.after c d v w o c.first.other n =
      if d.name = n ∧ ¬ (c.name = n ∧ o.Crosses c d) then w
      else if c.name = n then v else copies c.first.other n := by
  cases o <;> cases hc : c.first <;> cases hd : d.first <;>
    simp only [after, put_apply, Side.other, Interleaving.Crosses, hc, hd] <;> grind

/-- A switch leaves the rest of a rule to what the other call makes of it. -/
theorem leaves_leaves (h : c.first = .table) (d : RuleCall) (held : Option Rule) :
    d.leaves (c.leaves held) = d.leaves held := by
  cases c with
  | create r => cases h
  | remove name => cases h
  | setEnabled name enabled => cases d <;> cases held <;> rfl

/-- When the calls cross, it makes no difference to the second one that the first one has begun. -/
theorem leaves_found (cross : o.Crosses c d) (hname : c.name = d.name)
    (hv : v = c.leaves (copies .table c.name)) :
    d.leaves (copies.found c d v o) = d.leaves (copies .table d.name) := by
  have begun : d.leaves ((copies.put c.first c.name v) .table d.name) =
      d.leaves (copies .table d.name) := by
    rw [put_apply]
    split
    · next h => rw [hv, leaves_leaves h.1.symm, hname]
    · rfl
  cases o with
  | apart => exact cross.elim
  | alternating => exact begun
  | nested => exact begun

/-- Copies that agree still do so after two calls that do not cross, or that leave the same rule. -/
theorem after_agree_iff (agree : copies.Agree) (hv : v = c.leaves (copies .table c.name))
    (hw : w = d.leaves (copies.found c d v o)) :
    (copies.after c d v w o).Agree ↔
      ¬ (c.name = d.name ∧ o.Crosses c d ∧
        c.leaves (copies .table c.name) ≠ d.leaves (copies .table d.name)) := by
  have hsame := (agree_iff c.first).1 agree
  have hleft (hname : c.name = d.name) (cross : o.Crosses c d) :
      v = w ↔ c.leaves (copies .table c.name) = d.leaves (copies .table d.name) := by
    rw [hw, leaves_found cross hname hv, hv]
  rw [agree_iff c.first]
  constructor
  · rintro h ⟨hname, cross, hne⟩
    have hboth := h d.name
    rw [after_first, after_other, if_pos rfl, if_neg fun h => h.2 ⟨hname, cross⟩,
      if_pos hname] at hboth
    exact hne ((hleft hname cross).1 hboth.symm)
  · intro h n
    rw [after_first, after_other, ← hsame n]
    by_cases hcross : d.name = n ∧ c.name = n ∧ o.Crosses c d
    · obtain ⟨rfl, hname, cross⟩ := hcross
      have heq : v = w := (hleft hname cross).2 <|
        Classical.not_not.1 fun hne => h ⟨hname, cross, hne⟩
      rw [heq, if_pos rfl, if_pos hname, ite_self]
    · have hlast : (d.name = n ∧ ¬ (c.name = n ∧ o.Crosses c d)) ↔ d.name = n :=
        and_iff_left_of_imp fun hd hc => hcross ⟨hd, hc⟩
      exact (if_congr hlast rfl rfl).symm

end Copies

namespace Engine

/-! ## The copies of an engine -/

/-- Loading the database would give the rules that are in the table, under the same names. -/
def RulesAgree (e : Engine) : Prop :=
  ∃ db, e.store = .database db ∧ ∀ name, db.rule? (hasHandler e) name = getRule? e name

/-- The rules that an engine with these handlers has stored, and those that it has in its table. -/
structure Holds (known : String → Bool) (e : Engine) (copies : Copies) : Prop where
  handlers : hasHandler e = known
  rows : ∃ db, e.store = .database db ∧ Filed db.rules ∧
    ∀ name, db.rule? known name = copies .rows name
  table : ∀ name, getRule? e name = copies .table name
  storable : ∀ name r, copies .table name = some r → r.name = name ∧ r.Storable known

variable {known : String → Bool} {e e' second third : Engine} {db : Database} {copies : Copies}

theorem holds_of_agree (store : e.store = .database db) (filed : Filed db.rules)
    (agree : RulesAgree e) : Holds (hasHandler e) e fun _ => getRule? e := by
  obtain ⟨db', store', same⟩ := agree
  cases store.symm.trans store'
  refine ⟨rfl, ⟨db, store, filed, same⟩, fun _ => rfl, fun name r hr => ?_⟩
  exact Database.storable_of_rule? filed ((same name).trans hr)

/-- The engine agrees with its database when its copies agree. -/
theorem Holds.agree_iff (h : Holds known e copies) : RulesAgree e ↔ copies.Agree := by
  obtain ⟨db, store, -, rows⟩ := h.rows
  have hname (name : String) : db.rule? (hasHandler e) name = getRule? e name ↔
      copies .rows name = copies .table name := by
    rw [h.handlers, rows, h.table]
  constructor
  · rintro ⟨db', store', same⟩ name
    cases store.symm.trans store'
    exact (hname name).1 (same name)
  · intro agree
    exact ⟨db, store, fun name => (hname name).2 (agree name)⟩

/-- Copies agree when an engine that is built anew on the database gets the same rules. -/
theorem rulesAgree_iff_restart (store : e.store = .database db) (store' : second.store = e.store)
    (handlers : hasHandler second = hasHandler e) (loads : init second = (.ok (), third)) :
    RulesAgree e ↔ ∀ name, getRule? third name = getRule? e name := by
  have hloaded := getRule?_init (store'.trans store) loads
  rw [handlers] at hloaded
  constructor
  · rintro ⟨db', store'', same⟩ name
    cases store.symm.trans store''
    rw [hloaded, same]
  · intro same
    exact ⟨db, store, fun name => (hloaded name).symm.trans (same name)⟩

/-! ## Steps -/

/-- A statement that the database has carried out. -/
theorem writable_of_persist {change : Database → Database} (store : e.store = .database db)
    (h : persist (Database.write (.change change)) e = (.ok (), e')) : db.writable = true := by
  cases writable : db.writable with
  | true => rfl
  | false =>
    have hrefused := persist_refused store (Database.write_readonly writable (.change change))
    cases hrefused.symm.trans h

/-- A rule that was stored is in the copy of the database. -/
theorem Holds.saved (h : Holds known e copies) {r : Rule} (storable : r.Storable known)
    (saves : persist (Database.saveRule r) e = (.ok (), e')) :
    Holds known e' (copies.put .rows r.name (some r)) := by
  obtain ⟨db, store, filed, rows⟩ := h.rows
  have hsaved := persist_database store
    (Database.saveRule_apply (writable_of_persist store saves) r)
  cases hsaved.symm.trans saves
  refine ⟨h.handlers, ⟨_, rfl, Database.filed_stored filed storable, fun name => ?_⟩, h.table,
    h.storable⟩
  simp only [Database.rule?_withRule filed storable, Copies.put_apply, true_and, rows]

/-- A rule whose row was deleted is gone from the copy of the database. -/
theorem Holds.deleted (h : Holds known e copies) {name : String}
    (deletes : persist (Database.deleteRule name) e = (.ok (), e')) :
    Holds known e' (copies.put .rows name none) := by
  obtain ⟨db, store, filed, rows⟩ := h.rows
  have hdeleted := persist_database store
    (Database.deleteRule_apply (writable_of_persist store deletes) name)
  cases hdeleted.symm.trans deletes
  refine ⟨h.handlers, ⟨_, rfl, filed.erase name, fun other => ?_⟩, h.table, h.storable⟩
  simp only [Database.rule?_erase filed, Copies.put_apply, true_and, rows]

/-- The table changes under one name. -/
theorem Holds.tabled (h : Holds known e copies) {rules : RuleTable} {name : String} {r : Option Rule}
    (changed : ∀ other, rules.byName.get? other = if name = other then r else getRule? e other)
    (storable : ∀ x, r = some x → x.name = name ∧ x.Storable known) :
    Holds known { e with rules } (copies.put .table name r) := by
  refine ⟨h.handlers, h.rows, fun other => ?_, fun other x hx => ?_⟩
  · show rules.byName.get? other = _
    simp only [changed, Copies.put_apply, true_and, h.table]
  · rw [Copies.put_apply] at hx
    split at hx
    · next heq => exact heq.2 ▸ storable x hx
    · exact h.storable other x hx

/-- A rule that is switched changes in the copy of the table and stays as it was in the database. -/
theorem Holds.switched (h : Holds known e copies) {name : String} {r : Rule}
    (found : getRule? e name = some r) (enabled : Bool) :
    Holds known { e with rules := e.rules.setEnabled name enabled }
      (copies.put .table name (some { r with enabled })) := by
  obtain ⟨hname, storable⟩ := h.storable name r ((h.table name).symm.trans found)
  refine h.tabled (fun other => ?_) fun x hx => ?_
  · rw [RuleTable.byName_setEnabled]
    split
    · next heq =>
      rw [← heq]
      exact congrArg (Option.map _) found
    · rfl
  · cases hx
    exact ⟨hname, storable.withEnabled enabled⟩

open RuleCall (Rest)

/-- What is left to do puts a rule that can be stored under a name on a side, or leaves nothing there. -/
inductive Puts (known : String → Bool) : Rest → Side → String → Option Rule → Prop
  | enter {r : Rule} (storable : r.Storable known) : Puts known (.enter r) .table r.name (some r)
  | store {r : Rule} (storable : r.Storable known) : Puts known (.store r) .rows r.name (some r)
  | drop {name : String} : Puts known (.drop name) .table name none

/-- The first step puts what the call makes of the rule in the table, and the second step will do so. -/
theorem Holds.start (h : Holds known e copies) {c : RuleCall} (decoded : c.Decoded) {p : Rest}
    (starts : c.start e = (.ok p, e')) :
    Holds known e' (copies.put c.first c.name (c.leaves (copies .table c.name))) ∧
      Puts known p c.first.other c.name (c.leaves (copies .table c.name)) := by
  -- a creation and a removal begin with the database, and a switch begins with the table
  cases c with
  | create r =>
    obtain ⟨_, e₁, hcheck, hrest⟩ := Operation.bind_eq_ok starts
    obtain ⟨_, e₂, hsave, hpure⟩ := Operation.bind_eq_ok hrest
    cases hpure
    have accepted : r.problems (hasHandler e) = [] := by
      by_contra refused
      cases (checkRule_refused refused).symm.trans hcheck
    cases (checkRule_accepted accepted).symm.trans hcheck
    obtain ⟨⟨text, htext⟩, exact⟩ := decoded r rfl
    have storable : r.Storable known := ⟨Rule.kept_of_ofText htext, exact, h.handlers ▸ accepted⟩
    exact ⟨h.saved storable hsave, .enter storable⟩
  | setEnabled name enabled =>
    obtain ⟨r', e₁, hswitch, hpure⟩ := Operation.bind_eq_ok starts
    cases hpure
    cases found : e.rules.byName.get? name with
    | none => cases (switchRule_missing found enabled).symm.trans hswitch
    | some r =>
      cases (switchRule_found found enabled).symm.trans hswitch
      have held : copies .table name = some r := (h.table name).symm.trans found
      obtain ⟨rfl, storable⟩ := h.storable name r held
      have left : (RuleCall.setEnabled r.name enabled).leaves (copies .table r.name) =
          some { r with enabled } := congrArg (Option.map _) held
      exact ⟨left.symm ▸ h.switched found enabled,
        left.symm ▸ Puts.store (storable.withEnabled enabled)⟩
  | remove name =>
    obtain ⟨_, e₁, hdelete, hpure⟩ := Operation.bind_eq_ok starts
    cases hpure
    exact ⟨h.deleted hdelete, .drop⟩

/-- The second step of a call puts into its copy what the call is about. -/
theorem Holds.finish (h : Holds known e copies) {p : Rest} {side : Side} {name : String}
    {r : Option Rule} (puts : Puts known p side name r) {x : Bool}
    (finishes : p.finish e = (.ok x, e')) : Holds known e' (copies.put side name r) := by
  cases puts with
  | @enter r storable =>
    cases finishes
    refine h.tabled (RuleTable.byName_upsert e.rules r) fun x hx => ?_
    cases hx
    exact ⟨rfl, storable⟩
  | store storable =>
    obtain ⟨_, e₁, hsave, hpure⟩ := Operation.bind_eq_ok finishes
    cases hpure
    exact h.saved storable hsave
  | drop =>
    cases finishes
    exact h.tabled (RuleTable.byName_remove e.rules name) fun x hx => by cases hx

/-- Two calls that return leave the copies as their last steps do. -/
theorem Holds.race (h : Holds known e copies) {o : Interleaving} {c d : RuleCall}
    (first : c.Decoded) (second : d.Decoded) {x y : Bool}
    (returns : race o c d e = (.ok (x, y), e')) :
    ∃ v w, v = c.leaves (copies .table c.name) ∧ w = d.leaves (copies.found c d v o) ∧
      Holds known e' (copies.after c d v w o) := by
  -- the steps are taken apart in the order in which they were made
  cases o with
  | apart =>
    obtain ⟨p, e₁, hp, hrest⟩ := Operation.bind_eq_ok returns
    obtain ⟨x, e₂, hx, hrest⟩ := Operation.bind_eq_ok hrest
    obtain ⟨q, e₃, hq, hrest⟩ := Operation.bind_eq_ok hrest
    obtain ⟨y, e₄, hy, hpure⟩ := Operation.bind_eq_ok hrest
    cases hpure
    obtain ⟨h₁, hputs⟩ := h.start first hp
    have h₂ := h₁.finish hputs hx
    obtain ⟨h₃, hputs⟩ := h₂.start second hq
    exact ⟨_, _, rfl, rfl, h₃.finish hputs hy⟩
  | alternating =>
    obtain ⟨p, e₁, hp, hrest⟩ := Operation.bind_eq_ok returns
    obtain ⟨q, e₂, hq, hrest⟩ := Operation.bind_eq_ok hrest
    obtain ⟨x, e₃, hx, hrest⟩ := Operation.bind_eq_ok hrest
    obtain ⟨y, e₄, hy, hpure⟩ := Operation.bind_eq_ok hrest
    cases hpure
    obtain ⟨h₁, hputsFirst⟩ := h.start first hp
    obtain ⟨h₂, hputsSecond⟩ := h₁.start second hq
    exact ⟨_, _, rfl, rfl, (h₂.finish hputsFirst hx).finish hputsSecond hy⟩
  | nested =>
    obtain ⟨p, e₁, hp, hrest⟩ := Operation.bind_eq_ok returns
    obtain ⟨q, e₂, hq, hrest⟩ := Operation.bind_eq_ok hrest
    obtain ⟨y, e₃, hy, hrest⟩ := Operation.bind_eq_ok hrest
    obtain ⟨x, e₄, hx, hpure⟩ := Operation.bind_eq_ok hrest
    cases hpure
    obtain ⟨h₁, hputsFirst⟩ := h.start first hp
    obtain ⟨h₂, hputsSecond⟩ := h₁.start second hq
    exact ⟨_, _, rfl, rfl, (h₂.finish hputsSecond hy).finish hputsFirst hx⟩

/--
When the table has the rules that are stored, and two calls that change rules have returned, it has
them again, and an engine that is built anew on the database gets them, unless the calls are on one
rule, their steps cross, and they would leave different rules. In that case it does not.
-/
theorem race_agrees_iff (store : e.store = .database db) (filed : Filed db.rules)
    (agree : RulesAgree e) {o : Interleaving} {c d : RuleCall} (first : c.Decoded)
    (second : d.Decoded) {x y : Bool} (returns : race o c d e = (.ok (x, y), e')) :
    (RulesAgree e' ↔
      ¬ (c.name = d.name ∧ o.Crosses c d ∧
        c.leaves (getRule? e c.name) ≠ d.leaves (getRule? e d.name))) ∧
    ∀ next third, next.store = e'.store → hasHandler next = hasHandler e' →
      init next = (.ok (), third) →
      (RulesAgree e' ↔ ∀ name, getRule? third name = getRule? e' name) := by
  obtain ⟨v, w, hv, hw, holds⟩ := (holds_of_agree store filed agree).race first second returns
  obtain ⟨db', store', -⟩ := holds.rows
  refine ⟨?_, fun next third hstore handlers loads =>
    rulesAgree_iff_restart store' hstore handlers loads⟩
  exact holds.agree_iff.trans (Copies.after_agree_iff (fun _ => rfl) hv hw)

/-! ## A rule that comes back -/

/-- The database after the row was deleted and written again. -/
def haunted : Database := { noted with rules := noted.rules.erase "first" }.withRule muted

/-- The engine that has disabled the rule, and has not stored it yet. -/
def switched : Engine := { stocked with rules := stocked.rules.setEnabled "first" false }

/-- The engine that has stored the rule after it was removed. -/
def raced : Engine :=
  { switched with store := .database haunted, rules := switched.rules.remove "first" }

theorem stocked_eq :
    stocked = { shop with store := .database noted, rules := RuleTable.empty.upsert (note "first") } :=
  createRule_note .empty .empty rfl (by decide)

theorem store_stocked : stocked.store = .database noted := by
  rw [stocked_eq]

theorem hasHandler_stocked : hasHandler stocked = hasHandler shop := by
  rw [stocked_eq]
  rfl

theorem getRule?_stocked (name : String) :
    getRule? stocked name = if "first" = name then some (note "first") else none := by
  rw [stocked_eq]
  exact RuleTable.byName_upsert .empty (note "first") name

theorem start_remove (store : e.store = .database db) (writable : db.writable = true) (name : String) :
    (RuleCall.remove name).start e =
      (.ok (.drop name), { e with store := .database { db with rules := db.rules.erase name } }) :=
  Operation.bind_ok _ (persist_database store (Database.deleteRule_apply writable name))

theorem finish_drop (e : Engine) (name : String) :
    (Rest.drop name).finish e =
      (.ok (e.rules.byName.contains name), { e with rules := e.rules.remove name }) := rfl

/-- Both calls succeed, and each of them has the last word on one side. -/
theorem race_stocked :
    race .nested (.setEnabled "first" false) (.remove "first") stocked = (.ok (true, true), raced) := by
  have found : stocked.rules.byName.get? "first" = some (note "first") :=
    (getRule?_stocked "first").trans (if_pos rfl)
  have hswitch : RuleCall.start (.setEnabled "first" false) stocked = (.ok (.store muted), _) :=
    Operation.bind_ok _ (switchRule_found found false)
  have hsave (e : Engine) (db : Database) (store : e.store = .database db)
      (writable : db.writable = true) : (Rest.store muted).finish e = (.ok true, _) :=
    Operation.bind_ok _ (persist_database store (Database.saveRule_apply writable muted))
  have hcontains : switched.rules.byName.contains "first" = true := by
    have hget := RuleTable.byName_setEnabled stocked.rules "first" false "first"
    rw [if_pos rfl, found] at hget
    exact Keyed.contains_eq_true hget
  rw [race, Operation.bind_ok _ hswitch]
  refine (Operation.bind_ok _ (start_remove (e := switched) store_stocked rfl "first")).trans ?_
  refine (Operation.bind_ok _ (finish_drop _ "first")).trans ?_
  refine (Operation.bind_ok _ (hsave _ _ rfl rfl)).trans ?_
  show (Except.ok (true, switched.rules.byName.contains "first"), raced) = _
  rw [hcontains]

theorem agree_stocked : RulesAgree stocked := by
  have storable : (note "first").Storable (hasHandler stocked) :=
    storable_note (by rw [hasHandler_stocked]; decide)
  refine ⟨noted, store_stocked, fun name => ?_⟩
  rw [getRule?_stocked, noted, Database.rule?_withRule Database.filed_empty storable, rule?_empty]
  rfl

theorem rule?_haunted {known : String → Bool} (log : known "log" = true) :
    haunted.rule? known "first" = some muted := by
  have storable : muted.Storable known := (storable_note log).withEnabled false
  exact (Database.rule?_withRule (filed_noted.erase "first") storable "first").trans (if_pos rfl)

theorem getRule?_raced : getRule? raced "first" = none :=
  (RuleTable.byName_remove _ "first" "first").trans (if_pos rfl)

/-- The two calls have returned, and their steps have crossed. -/
theorem race_agrees_iff_stocked :
    stocked.store = .database noted ∧ Filed noted.rules ∧ RulesAgree stocked ∧
      race .nested (.setEnabled "first" false) (.remove "first") stocked = (.ok (true, true), raced) ∧
      ¬ RulesAgree raced := by
  have iff := (race_agrees_iff store_stocked filed_noted agree_stocked (fun _ h => by cases h)
    (fun _ h => by cases h) race_stocked).1
  refine ⟨store_stocked, filed_noted, agree_stocked, race_stocked, fun agree => ?_⟩
  refine iff.1 agree ⟨rfl, trivial, ?_⟩
  show ((getRule? stocked "first").map fun r => { r with enabled := false }) ≠ none
  rw [getRule?_stocked, if_pos rfl]
  simp

/-! A rule may also be stored in a row of another name. Removing it deletes the row of its own name. -/

/-- An engine that has loaded the database. -/
def misled : Engine :=
  { shop with store := .database archived, rules := RuleTable.empty.upsert (note "first") }

theorem getRule?_misled (name : String) :
    getRule? misled name = if "first" = name then some (note "first") else none :=
  RuleTable.byName_upsert .empty (note "first") name

theorem agree_misled : RulesAgree misled := by
  have log : hasHandler misled "log" = true := by decide
  exact ⟨archived, rfl, fun name => (rule?_archived log name).trans (getRule?_misled name).symm⟩

/-- The engine after the rule was removed, and another one that it does not have. -/
def emptied : Engine := { misled with rules := (misled.rules.remove "first").remove "other" }

theorem getRule?_emptied : getRule? emptied "first" = none := by
  show ((misled.rules.remove "first").remove "other").byName.get? "first" = none
  rw [RuleTable.byName_remove, RuleTable.byName_remove, if_pos rfl, ite_self]

/-- The first call answers that the rule is removed. The row, which has another name, is still there. -/
theorem race_misled :
    race .apart (.remove "first") (.remove "other") misled = (.ok (true, false), emptied) := by
  have hfirst := start_remove (e := misled) rfl rfl "first"
  have hsecond :=
    start_remove (e := { misled with rules := misled.rules.remove "first" }) rfl rfl "other"
  rw [erase_archived (by decide)] at hfirst hsecond
  have held : misled.rules.byName.contains "first" = true :=
    Keyed.contains_eq_true ((getRule?_misled "first").trans (if_pos rfl))
  have missing : (misled.rules.remove "first").byName.contains "other" = false := by
    refine Keyed.contains_eq_false ?_
    rw [RuleTable.byName_remove, if_neg (by decide)]
    exact (getRule?_misled "other").trans (if_neg (by decide))
  rw [race, Operation.bind_ok _ hfirst]
  refine (Operation.bind_ok _ (finish_drop _ "first")).trans ?_
  refine (Operation.bind_ok _ hsecond).trans ?_
  refine (Operation.bind_ok _ (finish_drop _ "other")).trans ?_
  show (Except.ok (misled.rules.byName.contains "first",
    (misled.rules.remove "first").byName.contains "other"), emptied) = _
  rw [held, missing]

/--
A rule that is removed while it is being disabled is not in the table any more, but it is stored. The
next engine has it, and has it disabled. A rule that is stored in a row of another name comes back as
well, even after calls that do not overlap.
-/
theorem copies_differ :
    (RulesAgree stocked ∧
      race .nested (.setEnabled "first" false) (.remove "first") stocked = (.ok (true, true), raced) ∧
      getRule? raced "first" = none ∧
      ∃ third, init (successor raced) = (.ok (), third) ∧ getRule? third "first" = some muted) ∧
    (RulesAgree misled ∧
      race .apart (.remove "first") (.remove "other") misled = (.ok (true, false), emptied) ∧
      getRule? emptied "first" = none ∧
      ∃ third, init (successor emptied) = (.ok (), third) ∧
        getRule? third "first" = some (note "first")) := by
  refine ⟨⟨agree_stocked, race_stocked, getRule?_raced, ?_⟩,
    agree_misled, race_misled, getRule?_emptied, ?_⟩
  · have rows : Database.Fetchable haunted.rules :=
      ((Database.fetchable_empty.insert _ _).erase "first").insert _ _
    have log : hasHandler raced "log" = true := by
      show hasHandler stocked "log" = true
      rw [hasHandler_stocked]
      decide
    obtain ⟨third, loads, same⟩ := restored (e := raced) rfl Database.fetchable_empty rows
    exact ⟨third, loads, (same "first").trans (rule?_haunted log)⟩
  · have rows : Database.Fetchable archived.rules := Database.fetchable_empty.insert _ _
    have log : hasHandler emptied "log" = true := by decide
    obtain ⟨third, loads, same⟩ := restored (e := emptied) rfl Database.fetchable_empty rows
    exact ⟨third, loads, (same "first").trans ((rule?_archived log "first").trans (if_pos rfl))⟩

end Engine

end WorkflowRules
