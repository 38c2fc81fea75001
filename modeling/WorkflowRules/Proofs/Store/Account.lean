import Mathlib.Data.List.Chain
import WorkflowRules.Store

/-!
# What a store holds of an instance

Both stores hold an instance with its history, one as values and the other as rows. An account is what
the two have in common: the state, the version, and the entries as they are kept.

* `Store.account?` — the account of an instance
* `Account.Sound` — the entries are numbered without a gap, each starts where the one before it ended,
  and the last one ended in the state of the instance
* `Account.Sound.append` — an entry that goes on from there keeps an account sound
-/

namespace WorkflowRules

/-- An entry of a history in the form in which a store keeps it. -/
inductive Written where
  | entry (e : HistoryEntry)
  | row (sequence : Int) (row : HistoryRow)

namespace Written

/-- The position in the history. -/
def sequence : Written → Int
  | entry e => e.sequence
  | row sequence _ => sequence

/-- The state before; the entry of the creation has none. -/
def fromState : Written → Option String
  | entry e => e.fromState
  | row _ r => r.fromState

/-- The state after. -/
def toState : Written → String
  | entry e => e.toState
  | row _ r => r.toState

end Written

/-- What a store holds of an instance. -/
structure Account where
  state : String
  version : Int
  /-- The entries in the order of their sequences. -/
  history : List Written

/-- The account of an instance that is kept in memory. -/
def StoredInstance.account (stored : StoredInstance) : Account :=
  ⟨stored.current.state, stored.current.version, stored.history.map .entry⟩

/-- The account of an instance that is kept in rows. -/
def Database.accountOf (row : InstanceRow) (rows : List (Int × HistoryRow)) : Account :=
  ⟨row.state, row.version, rows.map fun r => .row r.1 r.2⟩

/-- The account of an instance, if the store has the instance. -/
def Store.account? (key : InstanceKey) : Store → Option Account
  | .memory s => (s.instances.get? key).map (·.account)
  | .database db => (db.instances.get? key).map fun row => Database.accountOf row (db.historyRows key)

/-! ## Sequences -/

/-- The numbers from 1 to `n`. -/
def numbered (n : Nat) : List Int := (List.range n).map fun k : Nat => (k : Int) + 1

theorem numbered_succ (n : Nat) : numbered (n + 1) = numbered n ++ [(n : Int) + 1] := by
  simp [numbered, List.range_succ]

theorem mem_numbered {n : Nat} {k : Int} : k ∈ numbered n ↔ 1 ≤ k ∧ k ≤ n := by
  simp only [numbered, List.mem_map, List.mem_range]
  constructor
  · rintro ⟨m, hm, rfl⟩
    omega
  · intro h
    exact ⟨(k - 1).toNat, by omega, by omega⟩

theorem pairwise_numbered (n : Nat) : (numbered n).Pairwise (· < ·) := by
  induction n with
  | zero => exact List.Pairwise.nil
  | succ n ih =>
    rw [numbered_succ, List.pairwise_append]
    refine ⟨ih, List.pairwise_singleton _ _, fun a ha b hb => ?_⟩
    have := mem_numbered.1 ha
    rw [List.mem_singleton.1 hb]
    omega

/-! ## Sound accounts -/

/-- One entry starts in the state in which another one ended. -/
def Written.Follows (before after : Written) : Prop := after.fromState = some before.toState

/-- A history without a gap that leads to the state of the instance. -/
structure Account.Sound (a : Account) : Prop where
  sequences : a.history.map (·.sequence) = numbered a.history.length
  version : a.version = a.history.length
  linked : a.history.IsChain Written.Follows
  current : ∃ last, a.history.getLast? = some last ∧ last.toState = a.state

theorem Account.Sound.single {state : String} {w : Written} (hs : w.sequence = 1)
    (ht : w.toState = state) : Account.Sound ⟨state, 1, [w]⟩ where
  sequences := by simp [hs, numbered]
  version := rfl
  linked := .singleton w
  current := ⟨w, rfl, ht⟩

/-- An entry that goes on from the state of the instance, with the next number, keeps it sound. -/
theorem Account.Sound.append {a : Account} (h : a.Sound) {state : String} {w : Written}
    (hs : w.sequence = a.version + 1) (hf : w.fromState = some a.state) (ht : w.toState = state) :
    Account.Sound ⟨state, a.version + 1, a.history ++ [w]⟩ where
  sequences := by
    rw [List.map_append, h.sequences, List.length_append, List.length_singleton, numbered_succ,
      List.map_singleton, hs, h.version]
  version := by simp [h.version]
  linked := by
    obtain ⟨last, hlast, hstate⟩ := h.current
    refine h.linked.append (.singleton w) fun x hx y hy => ?_
    obtain rfl : last = x := Option.some.inj (hlast.symm.trans hx)
    obtain rfl := Option.some.inj hy
    exact hf.trans (congrArg some hstate.symm)
  current := ⟨w, by simp, ht⟩

end WorkflowRules
