import Mathlib.Data.List.Basic
import Mathlib.Data.List.Perm.Basic
import WorkflowRules.Proofs.Cascade.Tree

/-!
# The parts of a tree

Below every event of a tree stands the part that it set off. Every part but the whole stands below a
rule, either among what the actions of the rule led to or as the announcement of its record. So the
events of a tree are its first event, those that actions published and those that announce records.

* `Cascade.parts` — the parts, in the order in which their events were published
* `Cascade.records`, `Cascade.notices`, `Cascade.emitted` — what the rules of a tree came to, and what
  was published for them
* `Cascade.events_perm` — every event but the first one is a notice or was emitted
-/

namespace WorkflowRules

/-- What announced the record of the rule. -/
def Consideration.notice {τ : Type} (c : Consideration τ) : List τ := (c.closing.map (·.2)).toList

theorem Consideration.caused_eq {τ : Type} (c : Consideration τ) :
    c.caused = c.effects ++ c.notice :=
  rfl

namespace Cascade

mutual

/-- A tree and everything that stands below it, depth first. -/
def parts : Cascade → List Cascade
  | mk event considered => mk event considered :: partsOfAll considered

/-- The parts below a list of rules. -/
def partsOfAll : List (Consideration Cascade) → List Cascade
  | [] => []
  | c :: rest => partsOf c ++ partsOfAll rest

/-- The parts below a rule. -/
def partsOf : Consideration Cascade → List Cascade
  | ⟨_, _, effects, none⟩ => partsOfEffects effects
  | ⟨_, _, effects, some closing⟩ => partsOfEffects effects ++ partsOfClosing closing

/-- The parts of the announcement of a record. -/
def partsOfClosing : RuleExecution × Cascade → List Cascade
  | (_, t) => parts t

/-- The parts of a list of trees. -/
def partsOfEffects : List Cascade → List Cascade
  | [] => []
  | t :: rest => parts t ++ partsOfEffects rest

end

theorem partsOfEffects_eq (ts : List Cascade) : partsOfEffects ts = ts.flatMap parts := by
  induction ts with
  | nil => rfl
  | cons t rest ih => rw [partsOfEffects, ih, List.flatMap_cons]

/-- The parts below a rule are those of the trees that it caused. -/
theorem partsOf_eq (c : Consideration Cascade) : partsOf c = c.caused.flatMap parts := by
  obtain ⟨rule, dispatched, effects, _ | ⟨record, t⟩⟩ := c
  · simp [partsOf, partsOfEffects_eq, Consideration.caused]
  · simp [partsOf, partsOfEffects_eq, partsOfClosing, Consideration.caused]

theorem partsOfAll_eq (cs : List (Consideration Cascade)) :
    partsOfAll cs = (cs.flatMap (·.caused)).flatMap parts := by
  induction cs with
  | nil => rfl
  | cons c rest ih => rw [partsOfAll, ih, partsOf_eq, List.flatMap_cons, List.flatMap_append]

/-- What the rules that were considered for the event at the root caused. -/
def children (t : Cascade) : List Cascade := t.considered.flatMap (·.caused)

/-- A tree has itself and the parts of its children as parts. -/
theorem parts_eq (t : Cascade) : parts t = t :: t.children.flatMap parts := by
  obtain ⟨x, cs⟩ := t
  rw [parts, partsOfAll_eq]
  rfl

/-- A tree has its own event and those of its children. -/
theorem events_eq (t : Cascade) : events t = t.event :: t.children.flatMap events := by
  obtain ⟨x, cs⟩ := t
  rw [events_mk, children, List.flatMap_assoc]
  rfl

mutual

/-- What holds of a tree as soon as it holds of all that its rules caused holds of every tree. -/
theorem induct {P : Cascade → Prop} (h : ∀ t, (∀ u ∈ t.children, P u) → P t) (t : Cascade) : P t := by
  match t with
  | mk x cs => exact h _ fun u hu => inductOfAll h cs u hu

theorem inductOfAll {P : Cascade → Prop} (h : ∀ t, (∀ u ∈ t.children, P u) → P t)
    (cs : List (Consideration Cascade)) : ∀ u ∈ cs.flatMap (·.caused), P u := by
  match cs with
  | [] => exact fun u hu => by cases hu
  | c :: rest =>
    intro u hu
    rcases List.mem_append.1 hu with hu | hu
    · exact inductOf h c u hu
    · exact inductOfAll h rest u hu

theorem inductOf {P : Cascade → Prop} (h : ∀ t, (∀ u ∈ t.children, P u) → P t)
    (c : Consideration Cascade) : ∀ u ∈ c.caused, P u := by
  match c with
  | ⟨_, _, effects, none⟩ =>
    intro u hu
    rcases List.mem_append.1 hu with hu | hu
    · exact inductOfEffects h effects u hu
    · cases hu
  | ⟨_, _, effects, some closing⟩ =>
    intro u hu
    rcases List.mem_append.1 hu with hu | hu
    · exact inductOfEffects h effects u hu
    · exact List.mem_singleton.1 hu ▸ inductOfClosing h closing

theorem inductOfClosing {P : Cascade → Prop} (h : ∀ t, (∀ u ∈ t.children, P u) → P t)
    (closing : RuleExecution × Cascade) : P closing.2 := by
  match closing with
  | (_, t) => exact induct h t

theorem inductOfEffects {P : Cascade → Prop} (h : ∀ t, (∀ u ∈ t.children, P u) → P t)
    (ts : List Cascade) : ∀ u ∈ ts, P u := by
  match ts with
  | [] => exact fun u hu => by cases hu
  | t :: rest =>
    intro u hu
    rcases List.mem_cons.1 hu with heq | hu
    · exact heq ▸ induct h t
    · exact inductOfEffects h rest u hu

end

/-- The events of a tree are those of its parts. -/
theorem map_event_parts (t : Cascade) : (parts t).map event = events t := by
  induction t using induct with
  | h t ih =>
    rw [parts_eq, events_eq, List.map_cons, List.map_flatMap]
    exact congrArg _ (List.flatMap_congr ih)

/-- A tree is a part of itself. -/
theorem self_mem_parts (t : Cascade) : t ∈ parts t := by
  rw [parts_eq]
  exact List.mem_cons_self

/-- A part of a child is a part of the tree. -/
theorem mem_parts_of_child {t u v : Cascade} (hu : u ∈ t.children) (hv : v ∈ parts u) :
    v ∈ parts t := by
  rw [parts_eq]
  exact List.mem_cons_of_mem _ (List.mem_flatMap.2 ⟨u, hu, hv⟩)

/-- What every part hands on to its children holds of all parts, if it holds of the whole. -/
theorem forall_mem_parts {P : Cascade → Prop} {t : Cascade} (root : P t)
    (step : ∀ u ∈ t.parts, P u → ∀ v ∈ u.children, P v) : ∀ u ∈ t.parts, P u := by
  induction t using induct with
  | h t ih =>
    intro u hu
    rw [parts_eq] at hu
    rcases List.mem_cons.1 hu with rfl | hu
    · exact root
    · obtain ⟨v, hv, hu⟩ := List.mem_flatMap.1 hu
      refine ih v hv (step t (self_mem_parts t) root v hv) (fun w hw => ?_) u hu
      exact step w (mem_parts_of_child hv hw)

/-- The parts of a tree are where its causal chains lead to. -/
theorem mem_parts_iff {t u : Cascade} : u ∈ parts t ↔ ∃ hops, Chain t hops u := by
  constructor
  · induction t using induct with
    | h t ih =>
      intro hu
      rw [parts_eq] at hu
      rcases List.mem_cons.1 hu with rfl | hu
      · exact ⟨[], .refl _⟩
      · obtain ⟨v, hv, hu⟩ := List.mem_flatMap.1 hu
        obtain ⟨hops, hchain⟩ := ih v hv hu
        obtain ⟨x, cs⟩ := t
        obtain ⟨c, hc, hv⟩ := List.mem_flatMap.1 hv
        exact ⟨_, .hop hc hv hchain⟩
  · rintro ⟨hops, h⟩
    induction h with
    | refl t => exact self_mem_parts t
    | hop mem caused _ ih => exact mem_parts_of_child (List.mem_flatMap.2 ⟨_, mem, caused⟩) ih

/-! ## Notices and emitted events -/

/-- All rules that were considered anywhere in a tree. -/
def considerations (t : Cascade) : List (Consideration Cascade) := (parts t).flatMap (·.considered)

/-- The records of these rules. -/
def records (t : Cascade) : List RuleExecution :=
  t.considerations.flatMap fun c => (c.closing.map (·.1)).toList

/-- The events that announce them. -/
def notices (t : Cascade) : List DomainEvent :=
  t.considerations.flatMap fun c => c.notice.map event

/-- The events that actions of these rules published. -/
def emitted (t : Cascade) : List DomainEvent :=
  t.considerations.flatMap fun c => c.effects.map event

/-- Every part but the whole is a child of one part. -/
theorem parts_perm (t : Cascade) : (parts t).Perm (t :: (parts t).flatMap children) := by
  induction t using induct with
  | h t ih =>
    have hbelow : (t.children.flatMap parts).Perm
        (t.children ++ (t.children.flatMap parts).flatMap children) := by
      rw [List.flatMap_assoc]
      refine (List.Perm.flatMap_left _ ih).trans ?_
      refine (List.map_append_flatMap_perm t.children id _).symm.trans ?_
      rw [List.map_id]
    rw [parts_eq, List.flatMap_cons]
    exact hbelow.cons _

/-- Every event but the first one announces a record or was published by an action. -/
theorem events_perm (t : Cascade) : (events t).Perm (t.event :: (t.notices ++ t.emitted)) := by
  have hchildren : ((parts t).flatMap children).map event =
      t.considerations.flatMap fun c => c.effects.map event ++ c.notice.map event := by
    simp only [considerations, List.map_flatMap, List.flatMap_assoc, children,
      Consideration.caused_eq, List.map_append]
  rw [← map_event_parts]
  refine ((parts_perm t).map event).trans ?_
  rw [List.map_cons, hchildren]
  exact ((List.flatMap_append_perm _ _ _).symm.trans List.perm_append_comm).cons _

/-- There are as many notices as records. -/
theorem length_notices (t : Cascade) : t.notices.length = t.records.length := by
  unfold notices records
  rw [List.length_flatMap, List.length_flatMap]
  refine congrArg _ (List.map_congr_left fun c _ => ?_)
  rw [Consideration.notice, List.length_map]
  cases c.closing <;> rfl

end Cascade

end WorkflowRules
