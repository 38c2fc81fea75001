/-!
# Tables with one entry per key

A `Keyed` table keeps its entries in the order in which their keys first came in. A new value for a
key that is there takes the place of the old one; a new key goes to the end.

Every key occurs once, which the type guarantees.
-/

namespace WorkflowRules

/-- A table with one value for each of its keys. -/
structure Keyed (κ α : Type) where
  entries : List (κ × α)
  unique : (entries.map (·.1)).Nodup := by simp

namespace Keyed

variable {κ α : Type} [DecidableEq κ]

/-- The table without entries. -/
def empty : Keyed κ α := { entries := [] }

instance : Inhabited (Keyed κ α) := ⟨empty⟩

/-! ## Lists of entries -/

/-- The value that a list of entries has for a key. -/
def find (key : κ) : List (κ × α) → Option α
  | [] => none
  | (k, a) :: rest => if k = key then some a else find key rest

/-- Puts a value in the place of the old one, or at the end. -/
def put (key : κ) (value : α) : List (κ × α) → List (κ × α)
  | [] => [(key, value)]
  | (k, a) :: rest => if k = key then (k, value) :: rest else (k, a) :: put key value rest

/-- The entries with other keys. -/
def without (key : κ) (es : List (κ × α)) : List (κ × α) :=
  es.filter (·.1 ≠ key)

theorem mem_keys_put {key x : κ} {value : α} {es : List (κ × α)} :
    x ∈ (put key value es).map (·.1) ↔ x = key ∨ x ∈ es.map (·.1) := by
  induction es with
  | nil => simp [put]
  | cons e rest ih =>
    obtain ⟨k, a⟩ := e
    unfold put
    split
    · rename_i h
      subst h
      simp
    · rw [List.map_cons, List.mem_cons, ih, List.map_cons, List.mem_cons]
      exact ⟨fun h => h.elim (Or.inr ∘ Or.inl) (Or.imp_right Or.inr),
        fun h => h.elim (Or.inr ∘ Or.inl) (Or.imp_right Or.inr)⟩

theorem nodup_put {key : κ} {value : α} {es : List (κ × α)} (h : (es.map (·.1)).Nodup) :
    ((put key value es).map (·.1)).Nodup := by
  induction es with
  | nil => simp [put]
  | cons e rest ih =>
    obtain ⟨k, a⟩ := e
    have ⟨hk, hrest⟩ := List.nodup_cons.1 h
    unfold put
    split
    · exact List.nodup_cons.2 ⟨hk, hrest⟩
    · rename_i hne
      refine List.nodup_cons.2 ⟨fun hm => ?_, ih hrest⟩
      rcases mem_keys_put.1 hm with h | h
      · exact hne h
      · exact hk h

theorem nodup_without {key : κ} {es : List (κ × α)} (h : (es.map (·.1)).Nodup) :
    ((without key es).map (·.1)).Nodup :=
  h.sublist (List.filter_sublist.map _)

theorem find_put_self (key : κ) (value : α) (es : List (κ × α)) :
    find key (put key value es) = some value := by
  induction es with
  | nil => simp [put, find]
  | cons e rest ih =>
    obtain ⟨k, a⟩ := e
    unfold put
    split <;> simp_all [find]

theorem find_put_of_ne {key other : κ} (value : α) (es : List (κ × α)) (h : other ≠ key) :
    find other (put key value es) = find other es := by
  induction es with
  | nil => simp [put, find, h.symm]
  | cons e rest ih =>
    obtain ⟨k, a⟩ := e
    unfold put
    split
    · rename_i hk
      subst hk
      simp [find, h.symm]
    · simp only [find, ih]

theorem find_without_self (key : κ) (es : List (κ × α)) : find key (without key es) = none := by
  induction es with
  | nil => rfl
  | cons e rest ih =>
    obtain ⟨k, a⟩ := e
    by_cases h : k = key
    · simpa [without, h] using ih
    · have : without key ((k, a) :: rest) = (k, a) :: without key rest := by simp [without, h]
      rw [this, find, if_neg h, ih]

theorem find_without_of_ne {key other : κ} (es : List (κ × α)) (h : other ≠ key) :
    find other (without key es) = find other es := by
  induction es with
  | nil => rfl
  | cons e rest ih =>
    obtain ⟨k, a⟩ := e
    by_cases hk : k = key
    · have : without key ((k, a) :: rest) = without key rest := by simp [without, hk]
      rw [this, ih, find, if_neg (hk ▸ h.symm)]
    · have : without key ((k, a) :: rest) = (k, a) :: without key rest := by simp [without, hk]
      rw [this, find, find, ih]

theorem find_eq_some_iff {key : κ} {value : α} {es : List (κ × α)} (h : (es.map (·.1)).Nodup) :
    find key es = some value ↔ (key, value) ∈ es := by
  induction es with
  | nil => simp [find]
  | cons e rest ih =>
    obtain ⟨k, a⟩ := e
    have ⟨hk, hrest⟩ := List.nodup_cons.1 h
    unfold find
    split
    · rename_i heq
      subst heq
      constructor
      · rintro ⟨rfl⟩
        exact List.mem_cons_self
      · intro hm
        rcases List.mem_cons.1 hm with heq | hm
        · rw [(Prod.mk.inj heq).2]
        · exact absurd (List.mem_map.2 ⟨_, hm, rfl⟩) hk
    · rename_i hne
      rw [ih hrest, List.mem_cons]
      exact ⟨Or.inr, fun hm => hm.resolve_left fun heq => hne (Prod.mk.inj heq).1.symm⟩

theorem put_eq_append {key : κ} (value : α) {es : List (κ × α)} (h : find key es = none) :
    put key value es = es ++ [(key, value)] := by
  induction es with
  | nil => rfl
  | cons e rest ih =>
    obtain ⟨k, a⟩ := e
    unfold find at h
    split at h
    · cases h
    · next hne => rw [put, if_neg hne, ih h, List.cons_append]

theorem put_of_find {key : κ} {value : α} {es : List (κ × α)} (h : find key es = some value) :
    put key value es = es := by
  induction es with
  | nil => cases h
  | cons e rest ih =>
    obtain ⟨k, a⟩ := e
    unfold find at h
    unfold put
    split at h
    · next hk =>
      cases h
      rw [if_pos hk]
    · next hk => rw [if_neg hk, ih h]

theorem without_of_find {key : κ} {es : List (κ × α)} (h : find key es = none) :
    without key es = es := by
  refine List.filter_eq_self.2 ?_
  induction es with
  | nil => simp
  | cons e rest ih =>
    obtain ⟨k, a⟩ := e
    unfold find at h
    split at h
    · cases h
    · next hk =>
      intro x hx
      rcases List.mem_cons.1 hx with rfl | hx
      · simpa using hk
      · exact ih h x hx

/-! ## Tables -/

/-- The value of a key. -/
def get? (t : Keyed κ α) (key : κ) : Option α := find key t.entries

/-- Whether the table has a key. -/
def contains (t : Keyed κ α) (key : κ) : Bool := (t.get? key).isSome

/-- Gives a key a value. -/
def insert (t : Keyed κ α) (key : κ) (value : α) : Keyed κ α :=
  ⟨put key value t.entries, nodup_put t.unique⟩

/-- Removes a key. -/
def erase (t : Keyed κ α) (key : κ) : Keyed κ α :=
  ⟨without key t.entries, nodup_without t.unique⟩

/-- The keys in their order. -/
def keys (t : Keyed κ α) : List κ := t.entries.map (·.1)

/-- The values in the order of their keys. -/
def values (t : Keyed κ α) : List α := t.entries.map (·.2)

/-- The number of keys. -/
def size (t : Keyed κ α) : Nat := t.entries.length

@[simp] theorem get?_empty (key : κ) : (empty : Keyed κ α).get? key = none := rfl

@[simp] theorem get?_insert_self (t : Keyed κ α) (key : κ) (value : α) :
    (t.insert key value).get? key = some value :=
  find_put_self key value t.entries

theorem get?_insert_of_ne {key other : κ} (t : Keyed κ α) (value : α) (h : other ≠ key) :
    (t.insert key value).get? other = t.get? other :=
  find_put_of_ne value t.entries h

theorem get?_insert (t : Keyed κ α) (key other : κ) (value : α) :
    (t.insert key value).get? other = if other = key then some value else t.get? other := by
  split
  · next h => exact h ▸ get?_insert_self t key value
  · next h => exact get?_insert_of_ne t value h

/-- What a key has after an insertion is the new value of its key, or what it had before. -/
theorem get?_insert_eq_some {t : Keyed κ α} {key other : κ} {value found : α}
    (h : (t.insert key value).get? other = some found) :
    (other = key ∧ found = value) ∨ (other ≠ key ∧ t.get? other = some found) := by
  by_cases hkey : other = key
  · subst hkey
    exact .inl ⟨rfl, (Option.some.inj ((get?_insert_self _ _ _).symm.trans h)).symm⟩
  · exact .inr ⟨hkey, (get?_insert_of_ne _ _ hkey).symm.trans h⟩

/-- A new key goes to the end. -/
theorem entries_insert {t : Keyed κ α} {key : κ} (value : α) (h : t.get? key = none) :
    (t.insert key value).entries = t.entries ++ [(key, value)] :=
  put_eq_append value h

theorem contains_eq_false {t : Keyed κ α} {key : κ} (h : t.get? key = none) :
    t.contains key = false := by
  rw [contains, h, Option.isSome_none]

theorem contains_eq_true {t : Keyed κ α} {key : κ} {value : α} (h : t.get? key = some value) :
    t.contains key = true := by
  rw [contains, h, Option.isSome_some]

@[simp] theorem get?_erase_self (t : Keyed κ α) (key : κ) : (t.erase key).get? key = none :=
  find_without_self key t.entries

theorem get?_erase_of_ne {key other : κ} (t : Keyed κ α) (h : other ≠ key) :
    (t.erase key).get? other = t.get? other :=
  find_without_of_ne t.entries h

/-- A key that is given the value it has. -/
theorem insert_of_get? {t : Keyed κ α} {key : κ} {value : α} (h : t.get? key = some value) :
    t.insert key value = t := by
  obtain ⟨es, hes⟩ := t
  simp only [insert, put_of_find h]

/-- A key that is not there is removed. -/
theorem erase_of_missing {t : Keyed κ α} {key : κ} (h : t.get? key = none) : t.erase key = t := by
  obtain ⟨es, hes⟩ := t
  simp only [erase, without_of_find h]

theorem erase_ne_self {t : Keyed κ α} {key : κ} (h : t.get? key ≠ none) : t.erase key ≠ t := by
  intro heq
  rw [← heq] at h
  exact h (get?_erase_self t key)

/-- A key has a value exactly when the two are an entry. -/
theorem get?_eq_some_iff {t : Keyed κ α} {key : κ} {value : α} :
    t.get? key = some value ↔ (key, value) ∈ t.entries :=
  find_eq_some_iff t.unique

end Keyed

end WorkflowRules
