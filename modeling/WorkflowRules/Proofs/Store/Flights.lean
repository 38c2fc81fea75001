import Mathlib.Logic.Function.Basic
import WorkflowRules.Proofs.Engine.Respected
import WorkflowRules.Proofs.Store.Commit

/-!
# Transitions in flight

A transition loads an instance, selects what to do, and commits later. Several engines may work on one
store, so any number of transitions can be between their load and their commit, and their steps come
in any order. Nothing keeps them apart but the version that a commit names.

* `Flights.step`, `Flights.run` — creations, loads and commits in some order
* `Flights.Sound` — every account is sound, and whoever has loaded the version that is stored has seen
  the state that is stored
* `Flights.step_effect` — all that a step can do to the store
* `Flights.account_run` — what a run does to one account
* `Flights.serialized` — commits take effect as if nobody else had been there, or not at all
-/

namespace WorkflowRules

/-- A store and the transitions in flight on it. -/
structure Flights where
  store : Store
  /-- What a call that has loaded an instance is going to commit. -/
  pending : Nat → Option HookContext

namespace Flights

/-- A step of one of the calls. -/
inductive Move where
  | create (d : Definition) (entityId : String) (data : Json) (actorId : Option String)
      (now : Timestamp)
  /-- Loads an instance and selects the transition of an event from a definition. -/
  | load (call : Nat) (key : InstanceKey) (d : Definition) (event : String)
      (context : TransitionContext)
  /-- Commits what the call has selected. -/
  | commit (call : Nat) (now : Timestamp)

/-- The call that a step belongs to. -/
def Move.call? : Move → Option Nat
  | create .. => none
  | load call .. => some call
  | commit call _ => some call

/-- The time of a commit is one that the store can read back. -/
def Move.Legible (s : Store) : Move → Prop
  | commit _ now => s.ReadsBack now
  | _ => True

/-- What a call that loads an instance is going to commit. -/
def selection (s : Store) (key : InstanceKey) (d : Definition) (event : String)
    (context : TransitionContext) : Option HookContext :=
  match s.get? key with
  | .ok (some i) => (d.select? i.state event).map fun t => Engine.contextOf i t event context
  | _ => none

/-- The commit of a call. -/
def commitOf (seen : HookContext) (now : Timestamp) : Operation Store Instance :=
  Store.commit seen.subject seen.toState (Engine.entryOf seen now)

/-- Carries out a step. -/
def step (w : Flights) : Move → Flights
  | .create d entityId data actorId now =>
    { w with store := (Store.create d entityId data actorId now w.store).2 }
  | .load call key d event context =>
    { w with pending := Function.update w.pending call (selection w.store key d event context) }
  | .commit call now =>
    match w.pending call with
    | none => w
    | some seen =>
      ⟨(commitOf seen now w.store).2, Function.update w.pending call none⟩

/-- Carries out steps one after the other. -/
def run (w : Flights) : List Move → Flights
  | [] => w
  | m :: rest => (w.step m).run rest

/-- The instance to which a step commits successfully, if it does. -/
def success? (w : Flights) : Move → Option InstanceKey
  | .commit call now =>
    (w.pending call).bind fun seen =>
      match (commitOf seen now w.store).1 with
      | .ok _ => some seen.subject.key
      | .error _ => none
  | _ => none

/-- The instances to which steps commit successfully, in the order of the commits. -/
def successes (w : Flights) : List Move → List InstanceKey
  | [] => []
  | m :: rest => (w.success? m).toList ++ (w.step m).successes rest

theorem run_append (w : Flights) (before after : List Move) :
    w.run (before ++ after) = (w.run before).run after := by
  induction before generalizing w with
  | nil => rfl
  | cons m rest ih => exact ih (w.step m)

theorem mem_successes_cons {w : Flights} {m : Move} {rest : List Move} {key : InstanceKey} :
    key ∈ w.successes (m :: rest) ↔
      w.success? m = some key ∨ key ∈ (w.step m).successes rest := by
  rw [successes, List.mem_append, Option.mem_toList]

/-! ## What the engine does in these steps -/

/-- The commit of a transition is the commit of a call, at the time that the clock shows. -/
theorem commit_eq_commitOf (seen : HookContext) (e : Engine) :
    (Engine.commit seen e).1 = (commitOf seen (e.clock.time e.clock.readings) e.store).1 ∧
      (Engine.commit seen e).2.store =
        (commitOf seen (e.clock.time e.clock.readings) e.store).2 :=
  ⟨rfl, rfl⟩

/-- What a transition commits is what was selected for the instance that it loaded. -/
theorem selection_eq {e e' e'' : Engine} {key : InstanceKey} {d : Definition} {i : Instance}
    {t : Transition} {event : String} (context : TransitionContext)
    (hload : Engine.load key e = (.ok i, e')) (hselect : Engine.select d i event e' = (.ok t, e'')) :
    selection e.store key d event context = some (Engine.contextOf i t event context) := by
  rw [selection, (Engine.load_ok hload).1]
  simp only [(Engine.select_ok hselect).1, Option.map_some]

/-- A transition that was selected is about the stored instance, in the state that was loaded. -/
theorem selection_ok {s : Store} {key : InstanceKey} {d : Definition} {event : String}
    {context : TransitionContext} {seen : HookContext}
    (h : selection s key d event context = some seen) :
    s.get? key = .ok (some seen.subject) ∧ seen.fromState = seen.subject.state := by
  unfold selection at h
  rcases hget : s.get? key with f | (_ | i) <;> rw [hget] at h
  · cases h
  · cases h
  · obtain ⟨t, -, rfl⟩ := Option.map_eq_some_iff.1 h
    exact ⟨rfl, rfl⟩

/-! ## Soundness -/

/-- What a call has seen still agrees with the store, unless there is a newer version. -/
def Coherent (s : Store) (seen : HookContext) : Prop :=
  ∃ a, s.account? seen.subject.key = some a ∧ seen.subject.version ≤ a.version ∧
    (a.version = seen.subject.version → a.state = seen.fromState)

/-- Every account is sound, and what any call has seen agrees with the store. -/
structure Sound (w : Flights) : Prop where
  formed : w.store.Formed
  accounts : ∀ key a, w.store.account? key = some a → a.Sound
  pending : ∀ call seen, w.pending call = some seen → Coherent w.store seen

/-- All that a step can do to the store. -/
inductive Effect (w : Flights) (m : Move) : Prop
  | nothing (store : (w.step m).store = w.store) (failed : w.success? m = none)
  | creation {key : InstanceKey} {state : String} {entry : Written}
      (missing : w.store.account? key = none)
      (wrote : Store.Wrote w.store (w.step m).store key ⟨state, 1, [entry]⟩)
      (sequence : entry.sequence = 1) (toState : entry.toState = state)
      (other : w.success? m = none)
  | commit {call : Nat} {now : Timestamp} {seen : HookContext} {a : Account} {entry : Written}
      (move : m = .commit call now) (pending : w.pending call = some seen)
      (account : w.store.account? seen.subject.key = some a)
      (held : a.version = seen.subject.version)
      (wrote : Store.Wrote w.store (w.step m).store seen.subject.key
        ⟨seen.toState, a.version + 1, a.history ++ [entry]⟩)
      (sequence : entry.sequence = a.version + 1) (fromState : entry.fromState = some a.state)
      (toState : entry.toState = seen.toState)
      (reads : w.store.ReadsBack now → w.store.Reads seen.subject.key →
        (w.step m).store.Reads seen.subject.key)
      (succeeded : w.success? m = some seen.subject.key)

/-- A move either succeeds, with one more version, or leaves the store as it was. -/
theorem step_effect {w : Flights} (h : w.Sound) (m : Move) : Effect w m := by
  cases m with
  | create d entityId data actorId now =>
    rcases Store.create_cases h.formed d entityId data actorId now with
      hcreate | ⟨s', entry, hcreate, hmissing, hwrote, hs, -, ht⟩
    · exact .nothing (by rw [step, hcreate]) rfl
    · refine .creation hmissing ?_ hs ht rfl
      rw [step, hcreate]
      exact hwrote
  | load call key d event context => exact .nothing rfl rfl
  | commit call now =>
    cases hp : w.pending call with
    | none =>
      refine .nothing ?_ ?_
      · rw [step, hp]
      · rw [success?, hp]
        rfl
    | some seen =>
      obtain ⟨a, ha, -, hstate⟩ := h.pending call seen hp
      -- the version alone decides; where it is stored, what was seen is the stored state
      by_cases hv : a.version = seen.subject.version
      · obtain ⟨i, s', entry, hcommit, hwrote, hs, hf, ht, hreads⟩ :=
          Store.commit_held h.formed ha hv seen.toState (Engine.entryOf seen now)
        have hstep : (w.step (.commit call now)).store = s' := by
          rw [step, hp]
          exact congrArg Prod.snd hcommit
        refine .commit rfl hp ha hv ?_ hs ?_ ht ?_ ?_
        · rw [hstep]
          exact hwrote
        · rw [hf, hstate hv]
          rfl
        · rw [hstep]
          exact hreads
        · have hfirst : (commitOf seen now w.store).1 = .ok i := congrArg Prod.fst hcommit
          rw [success?, hp, Option.bind_some, hfirst]
      · obtain ⟨f, hcommit⟩ :=
          Store.commit_refused h.formed ha hv seen.toState (Engine.entryOf seen now)
        refine .nothing ?_ ?_
        · rw [step, hp]
          exact congrArg Prod.snd hcommit
        · have hfirst : (commitOf seen now w.store).1 = .error f := congrArg Prod.fst hcommit
          rw [success?, hp, Option.bind_some, hfirst]

/-- A commit makes what the others have seen older than what is stored. -/
theorem Coherent.step {w : Flights} (h : w.Sound) (m : Move) {seen : HookContext}
    (hc : Coherent w.store seen) : Coherent (w.step m).store seen := by
  -- another call may have moved the instance on, and then the version that was loaded is behind
  cases step_effect h m with
  | nothing store failed =>
    rw [store]
    exact hc
  | @creation key state entry missing wrote =>
    have hne : seen.subject.key ≠ key := by
      rintro rfl
      obtain ⟨a, ha, -⟩ := hc
      rw [missing] at ha
      cases ha
    rw [Coherent, wrote.accounts _ hne]
    exact hc
  | @commit call now other a entry move pending account held wrote =>
    by_cases hkey : seen.subject.key = other.subject.key
    · obtain ⟨a', ha', hle, -⟩ := hc
      obtain rfl : a = a' := by
        rw [hkey, account] at ha'
        exact Option.some.inj ha'
      refine ⟨_, hkey ▸ wrote.account, ?_, ?_⟩
      · show seen.subject.version ≤ a.version + 1
        omega
      · intro heq
        have : a.version + 1 = seen.subject.version := heq
        omega
    · rw [Coherent, wrote.accounts _ hkey]
      exact hc

/-- Whoever loads an instance has seen what is stored. -/
theorem coherent_of_selection {s : Store} (h : s.Formed) {key : InstanceKey} {d : Definition}
    {event : String} {context : TransitionContext} {seen : HookContext}
    (hs : selection s key d event context = some seen) : Coherent s seen := by
  obtain ⟨hget, hfrom⟩ := selection_ok hs
  obtain ⟨hkey, a, ha, hversion, hstate⟩ := Store.account?_of_get? h hget
  rw [← hkey] at ha
  exact ⟨a, ha, by omega, fun _ => hstate.trans hfrom.symm⟩

/-- What a call waits with was loaded and selected from the store as it stood then. -/
theorem pending_step {w : Flights} {m : Move} {call : Nat} {seen : HookContext}
    (h : (w.step m).pending call = some seen) :
    w.pending call = some seen ∨
      ∃ key d event context, (w.step m).store = w.store ∧
        selection w.store key d event context = some seen := by
  cases m with
  | create d entityId data actorId now => exact .inl h
  | load other key d event context =>
    by_cases hcall : call = other
    · subst hcall
      exact .inr ⟨key, d, event, context, rfl, by simpa [step] using h⟩
    · exact .inl (by simpa [step, hcall] using h)
  | commit other now =>
    cases hp : w.pending other with
    | none => exact .inl (by simpa [step, hp] using h)
    | some seen' =>
      by_cases hcall : call = other
      · subst hcall
        simp [step, hp] at h
      · exact .inl (by simpa [step, hp, hcall] using h)

/-- Each move keeps the calls that wait and the store in line. -/
theorem Sound.step {w : Flights} (h : w.Sound) (m : Move) : (w.step m).Sound := by
  -- the store, its accounts, and the calls that wait; a move touches one instance at most
  refine ⟨?_, fun key a ha => ?_, fun call seen hp => ?_⟩
  · cases step_effect h m with
    | nothing store failed =>
      rw [store]
      exact h.formed
    | creation missing wrote => exact wrote.formed
    | commit move pending account held wrote => exact wrote.formed
  · cases step_effect h m with
    | nothing store failed =>
      rw [store] at ha
      exact h.accounts key a ha
    | @creation other state entry missing wrote sequence toState =>
      by_cases hkey : key = other
      · subst hkey
        obtain rfl := Option.some.inj (wrote.account.symm.trans ha)
        exact Account.Sound.single sequence toState
      · exact h.accounts key a ((wrote.accounts key hkey).symm.trans ha)
    | @commit other now seen b entry move pending account held wrote sequence fromState toState =>
      by_cases hkey : key = seen.subject.key
      · subst hkey
        obtain rfl := Option.some.inj (wrote.account.symm.trans ha)
        exact (h.accounts _ _ account).append sequence fromState toState
      · exact h.accounts key a ((wrote.accounts key hkey).symm.trans ha)
  · rcases pending_step hp with hp | ⟨key, d, event, context, hstore, hs⟩
    · exact (h.pending call seen hp).step h m
    · rw [hstore]
      exact coherent_of_selection h.formed hs

theorem Sound.run {w : Flights} (h : w.Sound) (moves : List Move) : (w.run moves).Sound := by
  induction moves generalizing w with
  | nil => exact h
  | cons m rest ih => exact ih (h.step m)

/-! ## Instances that can be read -/

/-- An instance that can be read can be read after a legible move. -/
theorem reads_step {w : Flights} (h : w.Sound) {m : Move} (legible : m.Legible w.store)
    {key : InstanceKey} (hread : w.store.Reads key) : (w.step m).store.Reads key := by
  obtain ⟨i, hi⟩ := hread
  cases step_effect h m with
  | nothing store failed =>
    rw [store]
    exact ⟨i, hi⟩
  | @creation other state entry missing wrote =>
    have hne : key ≠ other := by
      rintro rfl
      obtain ⟨-, a, ha, -⟩ := Store.account?_of_get? h.formed hi
      rw [missing] at ha
      cases ha
    exact ⟨i, (wrote.instances _ hne).trans hi⟩
  | @commit call now seen a entry move pending account held wrote _ _ _ reads =>
    by_cases hkey : key = seen.subject.key
    · subst move hkey
      exact reads legible ⟨i, hi⟩
    · exact ⟨i, (wrote.instances _ hkey).trans hi⟩

/-- In memory all times can be read back. -/
theorem Move.legible_memory (m : Move) (s : MemoryStore) : m.Legible (.memory s) := by
  cases m with
  | commit call now => exact .inl rfl
  | create d entityId data actorId now => trivial
  | load call key d event context => trivial

theorem inMemory_step (w : Flights) (m : Move) :
    (w.step m).store.inMemory = w.store.inMemory := by
  cases m with
  | create d entityId data actorId now => exact Store.onEither_inMemory _ _ _
  | load call key d event context => rfl
  | commit call now =>
    cases hp : w.pending call with
    | none => rw [step, hp]
    | some seen =>
      rw [step, hp]
      exact Store.onEither_inMemory _ _ _

theorem inMemory_run (w : Flights) (moves : List Move) :
    (w.run moves).store.inMemory = w.store.inMemory := by
  induction moves generalizing w with
  | nil => rfl
  | cons m rest ih => exact (ih (w.step m)).trans (inMemory_step w m)

theorem Move.Legible.congr {s s' : Store} (h : s'.inMemory = s.inMemory) {m : Move}
    (legible : m.Legible s) : m.Legible s' := by
  cases m with
  | commit call now =>
    rw [Move.Legible, Store.ReadsBack, h]
    exact legible
  | create d entityId data actorId now => trivial
  | load call key d event context => trivial

/-- What can be read can still be read after commits at legible times. -/
theorem reads_run {w : Flights} (h : w.Sound) {moves : List Move}
    (legible : ∀ m ∈ moves, m.Legible w.store) {key : InstanceKey} (hread : w.store.Reads key) :
    (w.run moves).store.Reads key := by
  induction moves generalizing w with
  | nil => exact hread
  | cons m rest ih =>
    have hstep := reads_step h (legible m List.mem_cons_self) hread
    refine ih (h.step m) (fun m' hm' => ?_) hstep
    exact (legible m' (List.mem_cons_of_mem _ hm')).congr (inMemory_step w m)

/-! ## Accounts along a run -/

/-- A step leaves an account alone, unless it commits to the instance. -/
theorem account_step {w : Flights} (h : w.Sound) (m : Move) {key : InstanceKey} {a : Account}
    (ha : w.store.account? key = some a) :
    (w.success? m ≠ some key ∧ (w.step m).store.account? key = some a) ∨
      (w.success? m = some key ∧ ∃ a', (w.step m).store.account? key = some a' ∧
        a'.version = a.version + 1 ∧ a.history <+: a'.history) := by
  cases step_effect h m with
  | nothing store failed =>
    rw [failed, store]
    exact .inl ⟨by simp, ha⟩
  | @creation other state entry missing wrote sequence toState failed =>
    have hne : key ≠ other := by
      rintro rfl
      rw [missing] at ha
      cases ha
    rw [failed, wrote.accounts key hne]
    exact .inl ⟨by simp, ha⟩
  | @commit call now seen b entry move pending account held wrote _ _ _ _ succeeded =>
    by_cases hkey : key = seen.subject.key
    · subst hkey
      obtain rfl : a = b := Option.some.inj (ha.symm.trans account)
      exact .inr ⟨succeeded, _, wrote.account, rfl, List.prefix_append _ _⟩
    · rw [succeeded, wrote.accounts key hkey]
      exact .inl ⟨fun heq => hkey (Option.some.inj heq).symm, ha⟩

/-- Along a run an account only grows, and it does so exactly by the commits to the instance. -/
theorem account_run {w : Flights} (h : w.Sound) (moves : List Move) {key : InstanceKey} {a : Account}
    (ha : w.store.account? key = some a) :
    ∃ a', (w.run moves).store.account? key = some a' ∧ a.history <+: a'.history ∧
      a.version ≤ a'.version ∧ (key ∉ w.successes moves → a' = a) ∧
      (key ∈ w.successes moves → a.version < a'.version) := by
  induction moves generalizing w a with
  | nil => exact ⟨a, ha, List.prefix_rfl, Int.le_refl _, fun _ => rfl, fun hmem => by cases hmem⟩
  | cons m rest ih =>
    rcases account_step h m ha with ⟨hother, hsame⟩ | ⟨hself, b, hb, hversion, hgrown⟩
    · obtain ⟨a', ha', hpre, hle, hnot, hmem⟩ := ih (h.step m) hsame
      have hiff : key ∈ w.successes (m :: rest) ↔ key ∈ (w.step m).successes rest := by
        rw [mem_successes_cons]
        exact or_iff_right hother
      exact ⟨a', ha', hpre, hle, fun hn => hnot fun hm => hn (hiff.2 hm), fun hm => hmem (hiff.1 hm)⟩
    · -- this step is a commit to the instance already, whatever the rest of the run does
      obtain ⟨a', ha', hpre, hle, -, -⟩ := ih (h.step m) hb
      have hin : key ∈ w.successes (m :: rest) := mem_successes_cons.2 (.inl hself)
      exact ⟨a', ha', hgrown.trans hpre, by omega, fun hn => absurd hin hn, fun _ => by omega⟩

/-! ## Serialization -/

/-- A store with no call in flight. -/
def start (s : Store) : Flights := ⟨s, fun _ => none⟩

theorem sound_start_memory : (start (.memory .empty)).Sound where
  formed _ _ h := by cases h
  accounts _ _ h := by cases h
  pending _ _ h := by cases h

theorem sound_start_database : (start (.database .empty)).Sound where
  formed := Database.Kept.empty
  accounts _ _ h := by cases h
  pending _ _ h := by cases h

/-- A call loads an instance and selects what to commit, and then others go on. -/
structure Race (s : Store) where
  before : List Move
  call : Nat
  key : InstanceKey
  definition : Definition
  event : String
  context : TransitionContext
  between : List Move
  /-- What the call is going to commit. -/
  seen : HookContext
  others : ∀ m ∈ between, m.call? ≠ some call
  loaded : ((start s).run (before ++ [.load call key definition event context])).pending call =
    some seen

/-- The moment after the load. -/
def Race.atLoad {s : Store} (r : Race s) : Flights :=
  (start s).run (r.before ++ [.load r.call r.key r.definition r.event r.context])

/-- The moment at which the call is about to commit. -/
def Race.atCommit {s : Store} (r : Race s) : Flights := r.atLoad.run r.between

/-- What commits to a store that only transitions in flight and creations work on. -/
structure Serialized (s : Store) : Prop where
  /-- The entries of an instance are numbered without a gap, and the version counts them. -/
  numbered : ∀ moves key a, ((start s).run moves).store.account? key = some a →
    a.history.map (·.sequence) = numbered a.history.length ∧ a.version = a.history.length
  /-- Every entry starts in the state in which the one before it ended. -/
  linked : ∀ moves key a, ((start s).run moves).store.account? key = some a →
    a.history.IsChain Written.Follows
  /-- No entry is lost or changed. -/
  kept : ∀ before after key a, ((start s).run before).store.account? key = some a →
    ∃ a', ((start s).run (before ++ after)).store.account? key = some a' ∧ a.history <+: a'.history
  /-- A commit succeeds if and only if no other one to the instance did since the load. -/
  commit : ∀ (r : Race s) now, r.atCommit.pending r.call = some r.seen ∧
    ((∃ i, (commitOf r.seen now r.atCommit.store).1 = .ok i) ↔
      r.key ∉ r.atLoad.successes r.between)
  /-- A successful one adds an entry that starts in the state that was loaded. -/
  winner : ∀ (r : Race s) now, r.key ∉ r.atLoad.successes r.between →
    ∃ a entry, r.atCommit.store.account? r.key = some a ∧
      (commitOf r.seen now r.atCommit.store).2.account? r.key =
        some ⟨r.seen.toState, a.version + 1, a.history ++ [entry]⟩ ∧
      entry.sequence = a.version + 1 ∧ entry.fromState = some r.seen.fromState ∧
      entry.toState = r.seen.toState ∧ a.state = r.seen.fromState
  /-- Another one changes nothing. -/
  loser : ∀ (r : Race s) now, r.key ∈ r.atLoad.successes r.between →
    ∃ f, commitOf r.seen now r.atCommit.store = (.error f, r.atCommit.store)
  /--
  It is told which version it expected. On a database this takes times that can be read back, since
  the instance is read once more.
  -/
  told : ∀ (r : Race s) now, (∀ m ∈ r.between, m.Legible s) →
    r.key ∈ r.atLoad.successes r.between →
      (commitOf r.seen now r.atCommit.store).1 =
        .error (.error (.concurrentModification r.key.1 r.key.2 r.seen.subject.version))

/-- What a call waits with stays as it is while others move. -/
theorem pending_run {w : Flights} {moves : List Move} {call : Nat}
    (others : ∀ m ∈ moves, m.call? ≠ some call) :
    (w.run moves).pending call = w.pending call := by
  induction moves generalizing w with
  | nil => rfl
  | cons m rest ih =>
    have hm := others m List.mem_cons_self
    have hstep : (w.step m).pending call = w.pending call := by
      cases m with
      | create d entityId data actorId now => rfl
      | load other key d event context =>
        have hne : call ≠ other := fun h => hm (congrArg some h.symm)
        simp [step, hne]
      | commit other now =>
        have hne : call ≠ other := fun h => hm (congrArg some h.symm)
        cases hp : w.pending other <;> simp [step, hp, hne]
    rw [← hstep]
    exact ih fun m' hm' => others m' (List.mem_cons_of_mem _ hm')

namespace Race

variable {s : Store} (r : Race s)

theorem sound_atLoad (h : (start s).Sound) : r.atLoad.Sound := h.run _

theorem sound_atCommit (h : (start s).Sound) : r.atCommit.Sound := (r.sound_atLoad h).run _

theorem pending_atCommit : r.atCommit.pending r.call = some r.seen :=
  (pending_run r.others).trans r.loaded

/-- What the call has loaded is what the store has at that moment. -/
theorem get?_atLoad : r.atLoad.store.get? r.key = .ok (some r.seen.subject) ∧
    r.seen.fromState = r.seen.subject.state := by
  have hloaded := r.loaded
  unfold atLoad
  rw [run_append] at hloaded ⊢
  have hs : selection ((start s).run r.before).store r.key r.definition r.event r.context =
      some r.seen := by
    simpa [run, step] using hloaded
  exact selection_ok hs

theorem account_atLoad (h : (start s).Sound) :
    r.seen.subject.key = r.key ∧ ∃ a, r.atLoad.store.account? r.key = some a ∧
      a.version = r.seen.subject.version ∧ a.state = r.seen.fromState := by
  obtain ⟨hget, hfrom⟩ := r.get?_atLoad
  obtain ⟨hkey, a, ha, hversion, hstate⟩ := Store.account?_of_get? (r.sound_atLoad h).formed hget
  exact ⟨hkey, a, ha, hversion, hstate.trans hfrom.symm⟩

/-- Nobody has committed since the load: the account is the one that was loaded. -/
theorem commit_of_not_mem (h : (start s).Sound) (now : Timestamp)
    (hn : r.key ∉ r.atLoad.successes r.between) :
    ∃ i s' a entry, commitOf r.seen now r.atCommit.store = (.ok i, s') ∧
      r.atCommit.store.account? r.key = some a ∧
      s'.account? r.key = some ⟨r.seen.toState, a.version + 1, a.history ++ [entry]⟩ ∧
      entry.sequence = a.version + 1 ∧ entry.fromState = some r.seen.fromState ∧
      entry.toState = r.seen.toState ∧ a.state = r.seen.fromState := by
  obtain ⟨hkey, a, ha, hversion, hstate⟩ := r.account_atLoad h
  obtain ⟨a', ha', -, -, hsame, -⟩ := account_run (r.sound_atLoad h) r.between ha
  obtain rfl := hsame hn
  obtain ⟨i, s', entry, hcommit, hwrote, hs, hf, ht, -⟩ :=
    Store.commit_held (r.sound_atCommit h).formed (hkey ▸ ha') hversion r.seen.toState
      (Engine.entryOf r.seen now)
  exact ⟨i, s', a', entry, hcommit, ha', hkey ▸ hwrote.account, hs, hf, ht, hstate⟩

/-- Somebody has: the stored version is a later one. -/
theorem version_of_mem (h : (start s).Sound) (hm : r.key ∈ r.atLoad.successes r.between) :
    ∃ a, r.atCommit.store.account? r.seen.subject.key = some a ∧
      a.version ≠ r.seen.subject.version := by
  obtain ⟨hkey, a, ha, hversion, -⟩ := r.account_atLoad h
  obtain ⟨a', ha', -, -, -, hlater⟩ := account_run (r.sound_atLoad h) r.between ha
  have hlt := hlater hm
  exact ⟨a', hkey ▸ ha', by omega⟩

theorem commit_of_mem (h : (start s).Sound) (now : Timestamp)
    (hm : r.key ∈ r.atLoad.successes r.between) :
    ∃ f, commitOf r.seen now r.atCommit.store = (.error f, r.atCommit.store) := by
  obtain ⟨a, ha, hv⟩ := r.version_of_mem h hm
  exact Store.commit_refused (r.sound_atCommit h).formed ha hv r.seen.toState
    (Engine.entryOf r.seen now)

/-- If the rows can be read, the failure tells which version was expected. -/
theorem commit_told (h : (start s).Sound) (now : Timestamp)
    (legible : ∀ m ∈ r.between, m.Legible s) (hm : r.key ∈ r.atLoad.successes r.between) :
    (commitOf r.seen now r.atCommit.store).1 =
      .error (.error (.concurrentModification r.key.1 r.key.2 r.seen.subject.version)) := by
  obtain ⟨a, ha, hv⟩ := r.version_of_mem h hm
  obtain ⟨hget, -⟩ := r.get?_atLoad
  obtain ⟨hkey, -⟩ := r.account_atLoad h
  have hread : r.atCommit.store.Reads r.seen.subject.key := by
    rw [hkey]
    refine reads_run (r.sound_atLoad h) (fun m hm => ?_) ⟨_, hget⟩
    exact (legible m hm).congr (inMemory_run (start s) _)
  have hstale := Store.commit_stale (r.sound_atCommit h).formed ha hread hv r.seen.toState
    (Engine.entryOf r.seen now)
  rw [← hkey]
  exact congrArg Prod.fst hstale

end Race

theorem serialized_of_sound {s : Store} (h : (start s).Sound) : Serialized s where
  numbered moves key a ha := by
    have hs := (h.run moves).accounts key a ha
    exact ⟨hs.sequences, hs.version⟩
  linked moves key a ha := ((h.run moves).accounts key a ha).linked
  kept before after key a ha := by
    rw [run_append]
    obtain ⟨a', ha', hgrown, -⟩ := account_run (h.run before) after ha
    exact ⟨a', ha', hgrown⟩
  commit r now := by
    refine ⟨r.pending_atCommit, fun ⟨i, hi⟩ hm => ?_, fun hn => ?_⟩
    · obtain ⟨f, hcommit⟩ := r.commit_of_mem h now hm
      rw [hcommit] at hi
      cases hi
    · obtain ⟨i, s', -, -, hcommit, -⟩ := r.commit_of_not_mem h now hn
      exact ⟨i, congrArg Prod.fst hcommit⟩
  winner r now hn := by
    obtain ⟨i, s', a, entry, hcommit, ha, haccount, hrest⟩ := r.commit_of_not_mem h now hn
    rw [hcommit]
    exact ⟨a, entry, ha, haccount, hrest⟩
  loser r now hm := r.commit_of_mem h now hm
  told r now legible hm := r.commit_told h now legible hm

/--
On either store, transitions in flight take effect as if each had been alone from its load to its
commit, or not at all.
-/
theorem serialized : Serialized (.memory .empty) ∧ Serialized (.database .empty) :=
  ⟨serialized_of_sound sound_start_memory, serialized_of_sound sound_start_database⟩

/-! ## A lost race -/

/-- A workflow that an event closes. -/
def ticket : Definition :=
  (Definition.ofStates "ticket" "ticket" "open" ["open", "closed"]).addTransition
    { sources := ["open"], target := "closed", event := "close" }

/-- Two calls load a ticket, and the first one commits before the second one does. -/
def lostRace : Race (.memory .empty) where
  before := [.create ticket "7" .null none ⟨0, 0⟩, .load 0 ("ticket", "7") ticket "close" .empty]
  call := 1
  key := ("ticket", "7")
  definition := ticket
  event := "close"
  context := .empty
  between := [.commit 0 ⟨0, 0⟩]
  seen :=
    Engine.contextOf (.create ticket "7" .null ⟨0, 0⟩)
      { sources := ["open"], target := "closed", event := "close" } "close" .empty
  others := by simp [Move.call?]
  loaded := rfl

/--
Of two calls that load the same version, the second to commit is told that the first has been there.
-/
theorem serialized_lostRace :
    lostRace.key ∈ lostRace.atLoad.successes lostRace.between ∧
      (commitOf lostRace.seen ⟨0, 0⟩ lostRace.atCommit.store).1 =
        .error (.error (.concurrentModification "ticket" "7" 1)) := by
  have hmem : lostRace.key ∈ lostRace.atLoad.successes lostRace.between :=
    (List.mem_singleton.2 rfl : lostRace.key ∈ [lostRace.key])
  exact ⟨hmem, serialized.1.told lostRace ⟨0, 0⟩ (fun m _ => m.legible_memory _) hmem⟩

end Flights

end WorkflowRules
