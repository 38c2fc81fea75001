/-!
# Computations that may fail

What is known of a computation made of several parts when it succeeds, and when one part fails.
-/

namespace WorkflowRules

variable {ε α β : Type}

/-- A sequence that succeeds consists of two parts that succeed. -/
theorem ok_of_bind {x : Except ε α} {f : α → Except ε β} {b : β} (h : x >>= f = .ok b) :
    ∃ a, x = .ok a ∧ f a = .ok b := by
  cases x with
  | error e => cases h
  | ok a => exact ⟨a, rfl, h⟩

/-- A sequence that fails does so in one of its parts. -/
theorem error_of_bind {x : Except ε α} {f : α → Except ε β} {e : ε} (h : x >>= f = .error e) :
    x = .error e ∨ ∃ a, x = .ok a ∧ f a = .error e := by
  cases x with
  | error e' =>
    cases h
    exact .inl rfl
  | ok a => exact .inr ⟨a, rfl, h⟩

/-- Reading what was written, element by element. -/
theorem mapM_map_ok {read : β → Except ε α} {write : α → β} {xs : List α}
    (h : ∀ x ∈ xs, read (write x) = .ok x) : (xs.map write).mapM read = .ok xs := by
  induction xs with
  | nil => rfl
  | cons x rest ih =>
    rw [List.map_cons, List.mapM_cons, h x List.mem_cons_self,
      ih fun y hy => h y (List.mem_cons_of_mem _ hy)]
    rfl

/-- An element that cannot be read is in the way of all the others. -/
theorem mapM_ne_ok {f : α → Except ε β} {xs : List α} {x : α} (hx : x ∈ xs)
    (h : ∀ y, f x ≠ .ok y) (ys : List β) : xs.mapM f ≠ .ok ys := by
  induction xs generalizing ys with
  | nil => cases hx
  | cons a rest ih =>
    intro hmap
    rw [List.mapM_cons] at hmap
    obtain ⟨b, hb, hmap⟩ := ok_of_bind hmap
    obtain ⟨bs, hbs, -⟩ := ok_of_bind hmap
    rcases List.mem_cons.1 hx with rfl | hx
    · exact h b hb
    · exact ih hx bs hbs

/-- What is told of the results, element by element, is told of the list of them. -/
theorem map_of_mapM {γ : Type} {f : α → Except ε β} {xs : List α} {ys : List β}
    (h : xs.mapM f = .ok ys) {told : β → γ} {tells : α → γ}
    (hf : ∀ x y, f x = .ok y → told y = tells x) : ys.map told = xs.map tells := by
  induction xs generalizing ys with
  | nil =>
    obtain rfl : [] = ys := Except.ok.inj h
    rfl
  | cons x rest ih =>
    rw [List.mapM_cons] at h
    obtain ⟨y, hy, h⟩ := ok_of_bind h
    obtain ⟨others, hothers, h⟩ := ok_of_bind h
    obtain rfl : y :: others = ys := Except.ok.inj h
    rw [List.map_cons, List.map_cons, hf x y hy, ih hothers]

end WorkflowRules
