import Mathlib.Logic.Relation
import WorkflowRules.Proofs.Engine.Administration
import WorkflowRules.Proofs.Store.Tidy

/-!
# How accounts change

On either store, all that an engine does to the account of an instance is to add entries, each by a
transition of the definition that is registered for the workflow. Only creations open accounts, and
nothing closes them.

* `Account.Evolves` — an account has changed by such entries and in no other way
* `Engine.Guarded` — engines that nobody gets past
* `Engine.Lawful.respected` — what transitions and cascades do to accounts
* `Engine.createInstance_opens` — what a creation does to them
* `Command.run_lawful` — what any command does to an account that is open
-/

namespace WorkflowRules

open Operation (Keeps)

namespace Account

/-- The account gets the entry of a transition that the definition of its workflow selects. -/
inductive Advances (registry : Keyed String Definition) (workflow : String) :
    Account → Account → Prop
  | intro {a a' : Account} {d : Definition} {t : Transition} {event : String} {w : Written}
      (registered : registry.get? workflow = some d) (selected : d.select? a.state event = some t)
      (state : a'.state = t.target) (version : a'.version = a.version + 1)
      (entry : w.toState = t.target) (history : a'.history.Perm (a.history ++ [w])) :
      Advances registry workflow a a'

/-- Any number of such entries. -/
abbrev Evolves (registry : Keyed String Definition) (workflow : String) : Account → Account → Prop :=
  Relation.ReflTransGen (Advances registry workflow)

variable {registry : Keyed String Definition} {workflow : String} {a b : Account}

/-- The version tells whether an account has changed. -/
theorem Evolves.eq_or_lt (h : Evolves registry workflow a b) : b = a ∨ a.version < b.version := by
  induction h with
  | refl => exact .inl rfl
  | @tail b c _ hstep ih =>
    obtain ⟨-, -, -, version, -, -⟩ := hstep
    rcases ih with rfl | hlt
    · exact .inr (by omega)
    · exact .inr (by omega)

/-- All states that an account tells of are of some kind. -/
structure Within (allowed : String → Prop) (a : Account) : Prop where
  state : allowed a.state
  entries : ∀ w ∈ a.history, allowed w.toState

/-- One more entry, to the state of the account. -/
theorem Within.extended {allowed : String → Prop} (h : a.Within allowed) {w : Written}
    (state : allowed b.state) (toState : w.toState = b.state)
    (history : b.history.Perm (a.history ++ [w])) : b.Within allowed := by
  refine ⟨state, fun x hx => ?_⟩
  rcases List.mem_append.1 (history.mem_iff.1 hx) with hx | hx
  · exact h.entries x hx
  · rw [List.mem_singleton.1 hx, toState]
    exact state

/-- An account stays within what the transitions of its definition do not leave. -/
theorem Evolves.within {d : Definition} {allowed : String → Prop}
    (registered : registry.get? workflow = some d)
    (closed : ∀ {state event t}, allowed state → d.select? state event = some t → allowed t.target)
    (h : Evolves registry workflow a b) (ha : a.Within allowed) : b.Within allowed := by
  induction h with
  | refl => exact ha
  | tail _ hstep ih =>
    obtain ⟨found, selected, state, -, entry, history⟩ := hstep
    obtain rfl := Option.some.inj (registered.symm.trans found)
    have htarget := closed ih.state selected
    exact ih.extended (state ▸ htarget) (entry.trans state.symm) history

end Account

open Account (Evolves)

namespace Engine

variable {e e' : Engine}

/-- An engine on a tidy store that nobody gets past. -/
structure Guarded (e : Engine) : Prop where
  store : e.store.Tidy
  hooks : ∀ name hook, e.hooks.get? name = some hook → hook.Tame

/-- A guarded engine stays so, and its accounts only change as its registry has it. -/
structure Lawful (e e' : Engine) : Prop where
  guarded : e'.Guarded ↔ e.Guarded
  registry : e'.registry = e.registry
  accounts : e.Guarded → ∀ key a, e.store.account? key = some a →
    ∃ a', e'.store.account? key = some a' ∧ Evolves e.registry key.1 a a'

theorem guarded_congr (store : e'.store.Tidy ↔ e.store.Tidy) (hooks : e'.hooks = e.hooks) :
    e'.Guarded ↔ e.Guarded := by
  constructor
  · intro h
    exact ⟨store.1 h.store, hooks ▸ h.hooks⟩
  · intro h
    exact ⟨store.2 h.store, hooks ▸ h.hooks⟩

theorem Lawful.of_same (store : e'.store = e.store) (hooks : e'.hooks = e.hooks)
    (registry : e'.registry = e.registry) : Lawful e e' where
  guarded := guarded_congr (by rw [store]) hooks
  registry := registry
  accounts _ key a ha := ⟨a, store ▸ ha, .refl⟩

/-- Lawful steps may be taken one after the other. -/
theorem Lawful.trans {c : Engine} (h₁ : Lawful e e') (h₂ : Lawful e' c) : Lawful e c where
  guarded := h₂.guarded.trans h₁.guarded
  registry := h₂.registry.trans h₁.registry
  accounts h key a ha := by
    obtain ⟨b, hb, hab⟩ := h₁.accounts h key a ha
    obtain ⟨c, hc, hbc⟩ := h₂.accounts (h₁.guarded.2 h) key b hb
    rw [h₁.registry] at hbc
    exact ⟨c, hc, hab.trans hbc⟩

/-! ## Transitions and cascades -/

theorem guarded_commit (held : Instance) (state : String) (entry : HistoryEntry) (e : Engine) :
    (onStoreOf (Store.commit held state entry) e).2.Guarded ↔ e.Guarded :=
  guarded_congr (Store.tidy_commit held state entry e.store) rfl

/-- A commit of what was loaded and selected in an earlier state. -/
theorem Lawful.commit (h : Lawful e e') {d : Definition} {i : Instance} {t : Transition}
    {workflow entityId event : String} {entry : HistoryEntry}
    (hd : e.registry.get? workflow = some d) (hi : e.store.get? (workflow, entityId) = .ok (some i))
    (ht : d.select? i.state event = some t) (toState : entry.toState = t.target) :
    Lawful e' (onStoreOf (Store.commit i t.target entry) e').2 where
  guarded := guarded_commit i t.target entry e'
  registry := rfl
  accounts hg' key a ha := by
    have hg := h.guarded.1 hg'
    obtain ⟨hkey, before, hbefore, hversion, hstate⟩ := hg.store.account?_of_get? hi
    show ∃ a', (Store.commit i t.target entry e'.store).2.account? key = some a' ∧ _
    rcases Store.commit_cases i t.target entry e'.store with
      hsame | ⟨found, next, w, grown, held, state, written⟩
    · rw [hsame]
      exact ⟨a, ha, .refl⟩
    · by_cases hother : key = i.key
      · subst hother
        obtain rfl : a = found := Option.some.inj (ha.symm.trans grown.before)
        -- The version that was loaded is stored, so nothing has happened to the account since.
        obtain ⟨now, hnow, hevolves⟩ := h.accounts hg _ before hbefore
        obtain rfl : now = a := Option.some.inj (hnow.symm.trans (hkey ▸ ha))
        obtain rfl : now = before := by
          rcases hevolves.eq_or_lt with heq | hlt
          · exact heq
          · omega
        have hworkflow : i.key.1 = workflow := congrArg Prod.fst hkey
        refine ⟨next, grown.after, .single (.intro ?_ (hstate ▸ ht) state grown.version
          (written.trans toState) grown.history)⟩
        rw [h.registry, hworkflow]
        exact hd
      · exact ⟨a, (grown.others key hother).trans ha, .refl⟩

/-- Transitions and cascades are lawful. -/
theorem Lawful.respected : Respected Lawful where
  refl _ := .of_same rfl rfl rfl
  trans _ _ _ := Lawful.trans
  observe _ _ _ := .of_same rfl rfl rfl
  now _ := .of_same rfl rfl rfl
  newIdentifier _ := .of_same rfl rfl rfl
  nextCall _ := .of_same rfl rfl rfl
  commit {e e' d i t workflow entityId event} context _ hd hi ht h := by
    have hnow : Lawful e' (now e').2 := .of_same rfl rfl rfl
    exact hnow.trans ((h.trans hnow).commit hd hi ht rfl)
  bypass {e e' name hook n seen state event} entry hh heff h := by
    refine ⟨?_, rfl, fun hg _ => ?_⟩
    · rcases commitDirectly_cases seen.subject state entry e' with same | same <;> rw [same]
      exact guarded_commit _ _ _ _
    exact absurd heff ((h.guarded.1 hg).hooks name hook hh n seen state event)

theorem published_lawful (x : DomainEvent) (e : Engine) : Lawful e (observe (.published x) e).2 :=
  .of_same rfl rfl rfl

/-! ## Creations -/

/-- What a creation does: it opens one account by a registered definition, or nothing. -/
inductive Opens (e e' : Engine) (workflow entityId : String) : Except Failure Instance → Prop
  | refused {f : Failure} (store : e'.store = e.store) : Opens e e' workflow entityId (.error f)
  | created {d : Definition} {i : Instance} {w : Written}
      (registered : e.registry.get? workflow = some d)
      (missing : e.store.account? (d.name, entityId) = none)
      (account : e'.store.account? (d.name, entityId) = some ⟨d.initialState, 1, [w]⟩)
      (toState : w.toState = d.initialState)
      (others : ∀ key, key ≠ (d.name, entityId) → e'.store.account? key = e.store.account? key) :
      Opens e e' workflow entityId (.ok i)

/-- A creation leaves all other instances alone, and the one of its key if there is one. -/
theorem Opens.kept {workflow entityId : String} {r : Except Failure Instance}
    (h : Opens e e' workflow entityId r) {key : InstanceKey} {a : Account}
    (ha : e.store.account? key = some a) : e'.store.account? key = some a := by
  cases h with
  | refused store => exact store ▸ ha
  | created _ missing _ _ others =>
    refine (others key ?_).trans ha
    rintro rfl
    cases missing.symm.trans ha

/-- A creation opens an account in the initial state, or changes nothing. -/
theorem createInstance_opens (h : e.Guarded) (workflow entityId : String) (data : Json)
    (actorId : Option String) :
    (createInstance workflow entityId data actorId e).2.Guarded ∧
      Opens e (createInstance workflow entityId data actorId e).2 workflow entityId
        (createInstance workflow entityId data actorId e).1 := by
  unfold createInstance
  cases hd : e.registry.get? workflow with
  | none =>
    have hlookup : lookup workflow e = (.error (.error (workflowNotFound workflow)), e) := by
      rw [lookup_apply, hd]
    rw [Operation.bind_error _ hlookup]
    exact ⟨h, .refused rfl⟩
  | some d =>
    have hlookup : lookup workflow e = (.ok d, e) := by rw [lookup_apply, hd]
    have hnow : now e = (.ok e.nextTime, (now e).2) := rfl
    rw [Operation.bind_ok _ hlookup, Operation.bind_ok _ hnow]
    have hcreate : onStoreOf (Store.create d entityId data actorId e.nextTime) (now e).2 =
        ((Store.create d entityId data actorId e.nextTime e.store).1,
          { (now e).2 with store := (Store.create d entityId data actorId e.nextTime e.store).2 }) := rfl
    rw [hcreate]
    rcases Store.create_opens h.store d entityId data actorId e.nextTime with
      ⟨f, hrefused⟩ | ⟨s', w, hcreated, tidy, missing, account, toState, others⟩
    · rw [hrefused]
      exact ⟨⟨h.store, h.hooks⟩, .refused rfl⟩
    · rw [hcreated]
      exact ⟨⟨tidy, h.hooks⟩, .created hd missing account toState others⟩

end Engine

/-! ## Commands -/

namespace Store.SameInstances

variable {s s' : Store}

theorem account?_eq (h : s.SameInstances s') (key : InstanceKey) : s'.account? key = s.account? key := by
  cases h with
  | memory m => rfl
  | database instances history => simp only [account?, Database.historyRows, instances, history]

theorem tidy_iff (h : s.SameInstances s') : s'.Tidy ↔ s.Tidy := by
  cases h with
  | memory m => exact Iff.rfl
  | database instances history => simp only [Tidy, Database.rowsOf, instances, history]

end Store.SameInstances

/-- A guarded engine stays so, and its accounts stay open and change as its registry has it. -/
theorem Command.run_lawful {e : Engine} (h : e.Guarded) (c : Command) :
    (c.run e).Guarded ∧ ∀ key a, e.store.account? key = some a →
      ∃ a', (c.run e).store.account? key = some a' ∧ Evolves e.registry key.1 a a' := by
  have lawful {e' : Engine} (hl : Engine.Lawful e e') : e'.Guarded ∧ _ :=
    ⟨hl.guarded.2 h, hl.accounts h⟩
  have hR := Engine.Lawful.respected
  have hpublished := Engine.published_lawful
  -- management does not touch instances, and of the rest only creations and commits do
  cases hadministers : c.administers with
  | true =>
    obtain ⟨-, hooks, -, instances⟩ := Command.administered hadministers e
    refine ⟨(Engine.guarded_congr instances.tidy_iff hooks).2 h, fun key a ha => ⟨a, ?_, .refl⟩⟩
    rw [instances.account?_eq, ha]
  | false =>
    cases c with
    | create workflow entityId data actorId =>
      obtain ⟨guarded, opens⟩ := Engine.createInstance_opens h workflow entityId data actorId
      exact ⟨guarded, fun key a ha => ⟨a, opens.kept ha, .refl⟩⟩
    | fire workflow entityId event context =>
      exact lawful (Engine.fire_keeps hR hpublished workflow entityId event context e)
    | publish name payload trail =>
      exact lawful (Engine.publishEvent_keeps hR hpublished name payload trail e)
    | process event => exact lawful (Engine.processEvent_keeps hR hpublished event e)
    | onEvent name payload => exact lawful (Engine.onEvent_keeps hR hpublished name payload e)
    | registerHook name hook tame =>
      refine ⟨⟨h.store, fun other found hfound => ?_⟩, fun key a ha => ⟨a, ha, .refl⟩⟩
      rcases Keyed.get?_insert_eq_some hfound with ⟨rfl, rfl⟩ | ⟨-, hfound⟩
      · exact tame
      · exact h.hooks other found hfound
    | _ => cases hadministers

end WorkflowRules
