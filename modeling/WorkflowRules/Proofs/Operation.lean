import Mathlib.Order.Defs.Unbundled
import WorkflowRules.Operation

/-!
# Reasoning about operations

What a long operation does is read off its parts in six ways.

* `Operation.Keeps` — the state that the operation leaves, whether it succeeds or fails, is related to
  the state it found
* `Operation.bind_congr_at`, `Operation.forEach_congr_at` — two operations agree at one state, although
  they may differ elsewhere
* `Operation.bind_eq_error`, `Operation.forEach_eq_error` — an operation that fails does so in one of
  its parts
* `Operation.NeverRefused` — the operation ends well, or breaks down
* `Operation.Survives` — there is no breakdown of some sort in states of some kind
* `Operation.Restores` — from states of some kind, a refusal leads back to such states
-/

namespace WorkflowRules.Operation

variable {σ α β : Type} {R : σ → σ → Prop}

/-! ## What operations keep -/

/-- Whatever the operation does, the state afterwards is related to the state before. -/
def Keeps (R : σ → σ → Prop) (x : Operation σ α) : Prop :=
  ∀ s, R s (x s).2

/-- One operation after another is a step from state to state to state. -/
theorem bind_state (hR : IsPreorder σ R) {x : Operation σ α} {f : α → Operation σ β} {s : σ}
    (hx : R s (x s).2) (hf : ∀ a s', x s = (.ok a, s') → R s' (f a s').2) :
    R s ((x >>= f) s).2 := by
  rw [bind_apply]
  rcases h : x s with ⟨r, s'⟩
  rw [h] at hx
  cases r with
  | error e => exact hx
  | ok a => exact hR.trans _ _ _ hx (hf a s' h)

/-- What two operations keep is kept by one after the other. -/
theorem Keeps.bind (hR : IsPreorder σ R) {x : Operation σ α} {f : α → Operation σ β}
    (hx : Keeps R x) (hf : ∀ a, Keeps R (f a)) : Keeps R (x >>= f) :=
  fun s => bind_state hR (hx s) fun a s' _ => hf a s'

theorem Keeps.pure (hR : IsPreorder σ R) (a : α) : Keeps R (Pure.pure a : Operation σ α) :=
  fun s => hR.refl s

/-- An operation that only looks keeps everything. -/
theorem Keeps.of_looks (hR : IsPreorder σ R) {x : Operation σ α} (h : ∀ s, (x s).2 = s) : Keeps R x :=
  fun s => by
    rw [h]
    exact hR.refl s

theorem Keeps.fail (hR : IsPreorder σ R) (e : AutomationError) :
    Keeps R (Operation.fail e : Operation σ α) :=
  fun s => hR.refl s

theorem Keeps.breakDown (hR : IsPreorder σ R) (why : Breakdown) :
    Keeps R (Operation.breakDown why : Operation σ α) :=
  fun s => hR.refl s

theorem Keeps.view (hR : IsPreorder σ R) (f : σ → α) : Keeps R (Operation.view f) :=
  fun s => hR.refl s

@[simp] theorem attempt_state (x : Operation σ α) (s : σ) : (attempt x s).2 = (x s).2 := by
  unfold attempt
  rcases x s with ⟨r, s'⟩
  rcases r with (e | _) | a <;> rfl

/-- An operation whose refusal is caught leaves the state that it leaves otherwise. -/
theorem Keeps.attempt {x : Operation σ α} (hx : Keeps R x) : Keeps R (attempt x) := fun s => by
  rw [attempt_state]
  exact hx s

/-- What an attempt gives tells how the operation ended. -/
theorem of_attempt {x : Operation σ α} {s s' : σ} {r : Except AutomationError α}
    (h : attempt x s = (.ok r, s')) : x s = (r.mapError Failure.error, s') := by
  unfold attempt at h
  rcases hx : x s with ⟨(reason | _) | a, t⟩ <;> rw [hx] at h <;> cases h <;> rfl

/-- A loop whose every round keeps a relation in the states that the loop can be in. -/
theorem forEach_state (hR : IsPreorder σ R) {f : α → Operation σ Unit} {start : σ} {as : List α}
    (hf : ∀ a ∈ as, ∀ s, R start s → R s (f a s).2) :
    ∀ s, R start s → R s (forEach f as s).2 := by
  induction as with
  | nil => exact fun s _ => hR.refl s
  | cons a rest ih =>
    intro s hs
    have ha := hf a List.mem_cons_self s hs
    refine bind_state hR ha fun _ s' h => ?_
    rw [h] at ha
    exact ih (fun b hb => hf b (List.mem_cons_of_mem _ hb)) s' (hR.trans _ _ _ hs ha)

/-- What an operation keeps at each element is kept along the list. -/
theorem Keeps.forEach (hR : IsPreorder σ R) {f : α → Operation σ Unit}
    (hf : ∀ a, Keeps R (f a)) (as : List α) : Keeps R (forEach f as) :=
  fun s => forEach_state hR (fun a _ s _ => hf a s) s (hR.refl s)

/-! ## Agreement at a state -/

/--
Two sequences agree in a state if their first parts do, and the rest does wherever the first part
leads.
-/
theorem bind_congr_at {x y : Operation σ α} {f g : α → Operation σ β} {s : σ} (hx : x s = y s)
    (hf : ∀ a s', x s = (.ok a, s') → f a s' = g a s') : (x >>= f) s = (y >>= g) s := by
  rw [bind_apply, bind_apply, ← hx]
  rcases h : x s with ⟨_ | a, s'⟩
  · rfl
  · exact hf a s' h

/-- Two loops agree when their rounds agree in all states that satisfy what the rounds maintain. -/
theorem forEach_congr_at {I : σ → Prop} {f g : α → Operation σ Unit} {as : List α}
    (hf : ∀ a ∈ as, ∀ s, I s → f a s = g a s) (hI : ∀ a ∈ as, ∀ s, I s → I (f a s).2) :
    ∀ s, I s → forEach f as s = forEach g as s := by
  induction as with
  | nil => exact fun _ _ => rfl
  | cons a rest ih =>
    intro s hs
    refine bind_congr_at (hf a List.mem_cons_self s hs) fun _ s' h => ?_
    have hs' := hI a List.mem_cons_self s hs
    rw [h] at hs'
    exact ih (fun b hb => hf b (List.mem_cons_of_mem _ hb))
      (fun b hb => hI b (List.mem_cons_of_mem _ hb)) s' hs'

/-- A sequence whose second part only turns the value of the first into another one. -/
theorem bind_pure_apply (x : Operation σ α) (f : α → β) (s : σ) :
    (x >>= fun a => pure (f a)) s = ((x s).1.map f, (x s).2) := by
  rw [bind_apply]
  rcases x s with ⟨_ | a, s'⟩ <;> rfl

/-! ## Where an operation fails -/

/-- A sequence fails in its first part, or in its second. -/
theorem bind_eq_error {x : Operation σ α} {f : α → Operation σ β} {s t : σ} {e : Failure}
    (h : (x >>= f) s = (.error e, t)) :
    x s = (.error e, t) ∨ ∃ a s', x s = (.ok a, s') ∧ f a s' = (.error e, t) := by
  rw [bind_apply] at h
  rcases hx : x s with ⟨e' | a, s'⟩
  · rw [hx] at h
    cases h
    exact .inl rfl
  · rw [hx] at h
    exact .inr ⟨a, s', rfl, h⟩

/-- A loop fails in one of its rounds. -/
theorem forEach_eq_error {f : α → Operation σ Unit} {as : List α} {s t : σ} {e : Failure}
    (h : forEach f as s = (.error e, t)) : ∃ a ∈ as, ∃ s', f a s' = (.error e, t) := by
  induction as generalizing s with
  | nil => cases h
  | cons a rest ih =>
    rcases bind_eq_error h with h | ⟨_, s', -, h⟩
    · exact ⟨a, List.mem_cons_self, s, h⟩
    · obtain ⟨b, hb, s'', h⟩ := ih h
      exact ⟨b, List.mem_cons_of_mem _ hb, s'', h⟩

/-! ## Operations that are never refused -/

/-- Only a breakdown can keep the operation from ending well. -/
def NeverRefused (x : Operation σ α) : Prop :=
  ∀ s reason, (x s).1 ≠ .error (.error reason)

theorem NeverRefused.pure (a : α) : NeverRefused (Pure.pure a : Operation σ α) :=
  fun _ _ h => by cases h

theorem NeverRefused.breakDown (why : Breakdown) :
    NeverRefused (Operation.breakDown why : Operation σ α) :=
  fun _ _ h => by cases h

theorem NeverRefused.view (f : σ → α) : NeverRefused (Operation.view f) :=
  fun _ _ h => by cases h

theorem NeverRefused.change (f : σ → σ) : NeverRefused (Operation.change f) :=
  fun _ _ h => by cases h

/-- If neither part is ever refused, the sequence is not. -/
theorem NeverRefused.bind {x : Operation σ α} {f : α → Operation σ β} (hx : NeverRefused x)
    (hf : ∀ a, NeverRefused (f a)) : NeverRefused (x >>= f) := by
  intro s reason
  rw [bind_apply]
  rcases h : x s with ⟨e | a, s'⟩
  · intro he
    exact hx s reason (by rw [h]; simpa using he)
  · exact hf a s' reason

/-- An operation whose refusals are caught is never refused. -/
theorem NeverRefused.attempt (x : Operation σ α) : NeverRefused (attempt x) := by
  intro s reason
  unfold Operation.attempt
  rcases x s with ⟨(e | _) | a, s'⟩ <;> simp

/-- If no step is ever refused, the whole list is gone through. -/
theorem NeverRefused.forEach {f : α → Operation σ Unit} (hf : ∀ a, NeverRefused (f a))
    (as : List α) : NeverRefused (forEach f as) := by
  induction as with
  | nil => exact NeverRefused.pure ()
  | cons a rest ih => exact (hf a).bind fun _ => ih

/-- An operation that is never refused and does not succeed breaks down. -/
theorem NeverRefused.breaksDown {x : Operation σ α} (hx : NeverRefused x) {s s' : σ}
    {f : Failure} (h : x s = (.error f, s')) : ∃ why, f = .breakdown why := by
  cases f with
  | breakdown why => exact ⟨why, rfl⟩
  | error reason => exact absurd (by rw [h]) (hx s reason)

/-- An operation that is neither refused nor breaks down succeeds. -/
theorem NeverRefused.succeeds {x : Operation σ α} (hx : NeverRefused x) {s : σ}
    (unbroken : ∀ why, (x s).1 ≠ .error (.breakdown why)) : ∃ a s', x s = (.ok a, s') := by
  rcases h : x s with ⟨failure | a, s'⟩
  · obtain ⟨why, rfl⟩ := hx.breaksDown h
    exact absurd (congrArg Prod.fst h) (unbroken why)
  · exact ⟨a, s', rfl⟩

/-- If all that can break the operation down is an unreadable row, that is what did. -/
theorem NeverRefused.eq_unreadable {x : Operation σ α} (hx : NeverRefused x) {s s' : σ} {f : Failure}
    (unbroken : ∀ why, why ≠ .unreadable → (x s).1 ≠ .error (.breakdown why))
    (h : x s = (.error f, s')) : f = .unreadable := by
  obtain ⟨why, rfl⟩ := hx.breaksDown h
  by_cases hwhy : why = .unreadable
  · rw [hwhy]
  · exact absurd (congrArg Prod.fst h) (unbroken why hwhy)

/-! ## Operations that do not break down -/

/-- From states with a property the operation leads to such states, and does not break down so. -/
def Survives (why : Breakdown) (I : σ → Prop) (x : Operation σ α) : Prop :=
  ∀ s, I s → (x s).1 ≠ .error (.breakdown why) ∧ I (x s).2

section Survives

variable {why : Breakdown} {I : σ → Prop}

theorem Survives.pure (a : α) : Survives why I (Pure.pure a : Operation σ α) :=
  fun _ hs => ⟨by simp, hs⟩

theorem Survives.fail (e : AutomationError) : Survives why I (Operation.fail e : Operation σ α) :=
  fun _ hs => ⟨by simp, hs⟩

theorem Survives.breakDown {other : Breakdown} (hne : other ≠ why) :
    Survives why I (Operation.breakDown other : Operation σ α) :=
  fun _ hs => ⟨by simpa using hne, hs⟩

theorem Survives.view (f : σ → α) : Survives why I (Operation.view f) :=
  fun _ hs => ⟨by simp, hs⟩

theorem Survives.viewExcept {f : σ → Except Failure α}
    (hf : ∀ s, I s → f s ≠ .error (.breakdown why)) : Survives why I (Operation.viewExcept f) :=
  fun s hs => ⟨hf s hs, hs⟩

theorem Survives.change {f : σ → σ} (hf : ∀ s, I s → I (f s)) :
    Survives why I (Operation.change f) :=
  fun s hs => ⟨by simp, hf s hs⟩

/-- The second part starts in a state that the first part has kept. -/
theorem Survives.bind {x : Operation σ α} {f : α → Operation σ β} (hx : Survives why I x)
    (hf : ∀ a, Survives why I (f a)) : Survives why I (x >>= f) := by
  intro s hs
  have h := hx s hs
  rw [bind_apply]
  rcases hxs : x s with ⟨e | a, s'⟩
  · rw [hxs] at h
    exact ⟨fun he => h.1 (congrArg _ (Except.error.inj he)), h.2⟩
  · rw [hxs] at h
    exact hf a s' h.2

/-- Catching refusals does not bring breakdowns about. -/
theorem Survives.attempt {x : Operation σ α} (hx : Survives why I x) :
    Survives why I (attempt x) := by
  intro s hs
  have h := hx s hs
  rw [attempt_state]
  refine ⟨?_, h.2⟩
  unfold Operation.attempt
  rcases hxs : x s with ⟨(e | other) | a, s'⟩
  · simp
  · rw [hxs] at h
    exact fun he => h.1 (congrArg _ (Except.error.inj he))
  · simp

/-- Undoing a failure does not bring breakdowns about. -/
theorem Survives.atomic {x : Operation σ α} (hx : Survives why I x) : Survives why I (atomic x) := by
  intro s hs
  have h := hx s hs
  unfold Operation.atomic
  rcases hxs : x s with ⟨e | a, s'⟩
  · rw [hxs] at h
    exact ⟨h.1, hs⟩
  · rw [hxs] at h
    exact h

end Survives

/-! ## Operations whose refusals leave nothing behind -/

/-- From states with a property the operation does not break down so, and a refusal keeps the property. -/
def Restores (why : Breakdown) (I : σ → Prop) (x : Operation σ α) : Prop :=
  ∀ s, I s → (x s).1 ≠ .error (.breakdown why) ∧ ∀ reason, (x s).1 = .error (.error reason) → I (x s).2

section Restores

variable {why : Breakdown} {I : σ → Prop} {x : Operation σ α} {f : α → Operation σ β}

theorem not_error_of_isOk {s : σ} (hok : (x s).1.isOk) (e : Failure) : (x s).1 ≠ .error e := by
  intro he
  rw [he] at hok
  cases hok

/-- What always succeeds need not restore anything. -/
theorem Restores.of_isOk (hx : ∀ s, I s → (x s).1.isOk) : Restores why I x :=
  fun s hs => ⟨not_error_of_isOk (hx s hs) _, fun _ he => absurd he (not_error_of_isOk (hx s hs) _)⟩

/-- Before the first change there is nothing to restore. -/
theorem Restores.after (hx : Survives why I x) (hf : ∀ a, Restores why I (f a)) :
    Restores why I (x >>= f) := by
  intro s hs
  have h := hx s hs
  rw [bind_apply]
  rcases hxs : x s with ⟨e | a, s'⟩
  · rw [hxs] at h
    exact ⟨fun he => h.1 (congrArg _ (Except.error.inj he)), fun _ _ => h.2⟩
  · rw [hxs] at h
    exact hf a s' h.2

/-- After the last refusal everything succeeds. -/
theorem Restores.andThen (hx : Restores why I x) (hf : ∀ a s, (f a s).1.isOk) :
    Restores why I (x >>= f) := by
  intro s hs
  have h := hx s hs
  rw [bind_apply]
  rcases hxs : x s with ⟨e | a, s'⟩
  · rw [hxs] at h
    exact ⟨fun he => h.1 (congrArg _ (Except.error.inj he)),
      fun reason he => h.2 reason (congrArg _ (Except.error.inj he))⟩
  · have hok := hf a s'
    exact ⟨not_error_of_isOk hok _, fun _ he => absurd he (not_error_of_isOk hok _)⟩

end Restores

end WorkflowRules.Operation
