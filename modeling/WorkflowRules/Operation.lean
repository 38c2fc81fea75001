import WorkflowRules.Error

/-!
# Operations

An operation reads and changes a state and then gives a value or fails. What it changed before a
failure stays changed: an operation that has to leave nothing behind says so with `atomic`.

Only refusals can be caught. `attempt` turns them into values, and passes on a breakdown, which no
operation survives.
-/

namespace WorkflowRules

/-- An operation on a state of type `σ`. -/
def Operation (σ α : Type) : Type := σ → Except Failure α × σ

namespace Operation

variable {σ τ α β : Type}

/-- Runs one operation after the other, unless the first one fails. -/
def andThen (x : Operation σ α) (f : α → Operation σ β) : Operation σ β := fun s =>
  match x s with
  | (.ok a, s') => f a s'
  | (.error e, s') => (.error e, s')

instance : Monad (Operation σ) where
  pure a := fun s => (.ok a, s)
  bind := andThen

@[simp] theorem pure_apply (a : α) (s : σ) : (pure a : Operation σ α) s = (.ok a, s) := rfl

theorem bind_apply (x : Operation σ α) (f : α → Operation σ β) (s : σ) :
    (x >>= f) s =
      match x s with
      | (.ok a, s') => f a s'
      | (.error e, s') => (.error e, s') := rfl

theorem bind_ok {x : Operation σ α} {s s' : σ} {a : α} (f : α → Operation σ β)
    (h : x s = (.ok a, s')) : (x >>= f) s = f a s' := by
  rw [bind_apply, h]

theorem bind_error {x : Operation σ α} {s s' : σ} {e : Failure} (f : α → Operation σ β)
    (h : x s = (.error e, s')) : (x >>= f) s = (.error e, s') := by
  rw [bind_apply, h]

/-- A sequence that succeeds consists of two operations that succeed. -/
theorem bind_eq_ok {x : Operation σ α} {f : α → Operation σ β} {s t : σ} {b : β}
    (h : (x >>= f) s = (.ok b, t)) : ∃ a s', x s = (.ok a, s') ∧ f a s' = (.ok b, t) := by
  rw [bind_apply] at h
  rcases hx : x s with ⟨r, s'⟩
  rw [hx] at h
  cases r with
  | error e => simp at h
  | ok a => exact ⟨a, s', rfl, h⟩

theorem id_map_apply (x : Operation σ α) : id <$> x = x := by
  funext s
  show andThen x _ s = x s
  unfold andThen
  rcases x s with ⟨r, s'⟩
  cases r <;> rfl

theorem bind_assoc_apply {γ : Type} (x : Operation σ α) (f : α → Operation σ β)
    (g : β → Operation σ γ) : x >>= f >>= g = x >>= fun a => f a >>= g := by
  funext s
  show andThen (andThen x f) g s = andThen x (fun a => andThen (f a) g) s
  unfold andThen
  rcases x s with ⟨r, s'⟩
  cases r <;> rfl

instance : LawfulMonad (Operation σ) :=
  LawfulMonad.mk' (Operation σ) id_map_apply (fun _ _ => rfl) bind_assoc_apply

/-- Refuses with an error. -/
def fail (e : AutomationError) : Operation σ α := fun s => (.error (.error e), s)

/-- Breaks down. -/
def breakDown (why : Breakdown) : Operation σ α := fun s => (.error (.breakdown why), s)

/-- Gives a value of the state without changing it. -/
def view (f : σ → α) : Operation σ α := fun s => (.ok (f s), s)

/-- Gives a value of the state, or fails, without changing it. -/
def viewExcept (f : σ → Except Failure α) : Operation σ α := fun s => (f s, s)

/-- Changes the state. -/
def change (f : σ → σ) : Operation σ Unit := fun s => (.ok (), f s)

@[simp] theorem fail_apply (e : AutomationError) (s : σ) :
    (fail e : Operation σ α) s = (.error (.error e), s) := rfl

@[simp] theorem breakDown_apply (why : Breakdown) (s : σ) :
    (breakDown why : Operation σ α) s = (.error (.breakdown why), s) := rfl

@[simp] theorem view_apply (f : σ → α) (s : σ) : view f s = (.ok (f s), s) := rfl

@[simp] theorem viewExcept_apply (f : σ → Except Failure α) (s : σ) :
    viewExcept f s = (f s, s) := rfl

@[simp] theorem change_apply (f : σ → σ) (s : σ) : change f s = (.ok (), f s) := rfl

/-- Makes an operation leave the state alone when it fails. -/
def atomic (x : Operation σ α) : Operation σ α := fun s =>
  match x s with
  | (.ok a, s') => (.ok a, s')
  | (.error e, _) => (.error e, s)

theorem atomic_ok {x : Operation σ α} {s s' : σ} {a : α} (h : x s = (.ok a, s')) :
    atomic x s = (.ok a, s') := by
  rw [atomic, h]

theorem atomic_error {x : Operation σ α} {s s' : σ} {e : Failure} (h : x s = (.error e, s')) :
    atomic x s = (.error e, s) := by
  rw [atomic, h]

/-- Runs an operation on a part of the state. -/
def within (get : σ → τ) (set : τ → σ → σ) (x : Operation τ α) : Operation σ α := fun s =>
  let r := x (get s)
  (r.1, set r.2 s)

/-- Turns a refusal into a value. -/
def attempt (x : Operation σ α) : Operation σ (Except AutomationError α) := fun s =>
  match x s with
  | (.ok a, s') => (.ok (.ok a), s')
  | (.error (.error e), s') => (.ok (.error e), s')
  | (.error (.breakdown why), s') => (.error (.breakdown why), s')

theorem attempt_ok {x : Operation σ α} {s s' : σ} {a : α} (h : x s = (.ok a, s')) :
    attempt x s = (.ok (.ok a), s') := by
  rw [attempt, h]

theorem attempt_error {x : Operation σ α} {s s' : σ} {e : AutomationError}
    (h : x s = (.error (.error e), s')) : attempt x s = (.ok (.error e), s') := by
  rw [attempt, h]

theorem attempt_breakdown {x : Operation σ α} {s s' : σ} {why : Breakdown}
    (h : x s = (.error (.breakdown why), s')) :
    attempt x s = (.error (.breakdown why), s') := by
  rw [attempt, h]

/-- Runs an operation for every element of a list. -/
def forEach (f : α → Operation σ Unit) : List α → Operation σ Unit
  | [] => pure ()
  | a :: rest => do
    f a
    forEach f rest

@[simp] theorem forEach_nil (f : α → Operation σ Unit) (s : σ) :
    forEach f [] s = (.ok (), s) := rfl

theorem forEach_cons (f : α → Operation σ Unit) (a : α) (rest : List α) :
    forEach f (a :: rest) = f a >>= fun _ => forEach f rest := rfl

end Operation

end WorkflowRules
