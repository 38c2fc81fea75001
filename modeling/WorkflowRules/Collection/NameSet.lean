/-!
# Sets of names

A set of names is kept as the list of its members in strictly ascending order, so two sets with the
same members are equal, and listing a set needs no sorting. Names are ordered by code point.
-/

namespace WorkflowRules

/-- A set of names. -/
structure NameSet where
  /-- The members in ascending order. -/
  toList : List String
  ascending : toList.Pairwise (· < ·) := by simp

namespace NameSet

/-- Puts a name into its place in an ascending list; a name that is there already stays. -/
def insertInto (name : String) : List String → List String
  | [] => [name]
  | n :: rest =>
    if name = n then n :: rest
    else if name < n then name :: n :: rest
    else n :: insertInto name rest

theorem mem_insertInto {name x : String} {ns : List String} :
    x ∈ insertInto name ns ↔ x = name ∨ x ∈ ns := by
  induction ns with
  | nil => simp [insertInto]
  | cons n rest ih =>
    unfold insertInto
    split
    · rename_i h
      simp only [List.mem_cons, h]
      exact ⟨Or.inr, fun hx => hx.elim Or.inl id⟩
    · split
      · simp
      · simp only [List.mem_cons, ih]
        exact ⟨fun hx => hx.elim (Or.inr ∘ Or.inl) (Or.imp_right Or.inr),
          fun hx => hx.elim (Or.inr ∘ Or.inl) (Or.imp_right Or.inr)⟩

theorem pairwise_insertInto {name : String} {ns : List String} (h : ns.Pairwise (· < ·)) :
    (insertInto name ns).Pairwise (· < ·) := by
  induction ns with
  | nil => simp [insertInto]
  | cons n rest ih =>
    have ⟨hn, hrest⟩ := List.pairwise_cons.1 h
    unfold insertInto
    split
    · exact h
    · split
      · rename_i hlt
        refine List.pairwise_cons.2 ⟨fun x hx => ?_, h⟩
        rcases List.mem_cons.1 hx with rfl | hx
        · exact hlt
        · exact String.lt_trans hlt (hn x hx)
      · rename_i hne hge
        refine List.pairwise_cons.2 ⟨fun x hx => ?_, ih hrest⟩
        rcases mem_insertInto.1 hx with rfl | hx
        · rcases Decidable.em (n < x) with hlt | hle
          · exact hlt
          · exact absurd (String.le_antisymm (String.not_lt.1 hle) (String.not_lt.1 hge)) hne
        · exact hn x hx

/-- The set without members. -/
def empty : NameSet := { toList := [] }

/-- Adds a name to a set. -/
def insert (name : String) (s : NameSet) : NameSet :=
  ⟨insertInto name s.toList, pairwise_insertInto s.ascending⟩

/-- The set of the names in a list. -/
def ofList (names : List String) : NameSet :=
  names.foldr insert empty

/-- Whether a name is in the set. -/
def contains (s : NameSet) (name : String) : Bool :=
  s.toList.contains name

/-- Whether the set has no members. -/
def isEmpty (s : NameSet) : Bool :=
  s.toList.isEmpty

theorem contains_iff {s : NameSet} {name : String} : s.contains name = true ↔ name ∈ s.toList := by
  simp [contains]

end NameSet

end WorkflowRules
