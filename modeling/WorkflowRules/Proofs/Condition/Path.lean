import WorkflowRules.Condition.Path

/-!
# Paths are followed step by step

A path is resolved segment by segment, so a path that is put together from two is resolved by resolving
one after the other. Only the places that an array or an object holds can be named further: from any
other value every way leads to null.

The empty path has no segment, whereas the text between two points, or behind the last one, is a segment
even when it is empty. So a path that ends with a point goes on from what is before the point.

* `Text.split_append` — a separator between two texts cuts between their parts
* `Path.resolve_append` — a path behind a path that is not empty
* `Path.Continues` — a path that goes on from another one
* `Path.resolve_composes` — both laws
-/

namespace WorkflowRules

/-- The parts of two texts with a separator between them are those of one and then those of the other. -/
theorem Text.split_append (separator : Char) (cs ds : List Char) :
    split separator (cs ++ separator :: ds) = split separator cs ++ split separator ds := by
  induction cs with
  | nil => simp [split]
  | cons c rest ih =>
    rw [List.cons_append, split, split, ih]
    split
    · rfl
    · -- the first part of the rest is still to be completed by `c`
      cases hrest : split separator rest with
      | nil => exact absurd hrest (split_ne_nil separator rest)
      | cons first others => rfl

/-- Whether a value holds other values. -/
def Json.isContainer : Json → Bool
  | .array _ | .object _ => true
  | _ => false

namespace Path

variable {value : Json}

/-! ## Segments -/

theorem segments_append (p q : String) : segments (p ++ "." ++ q) = segments p ++ segments q := by
  have htext : (p ++ "." ++ q).toList = p.toList ++ '.' :: q.toList := by simp
  rw [segments, Text.splitText, htext, Text.split_append, List.map_append]
  rfl

theorem segments_ne_nil (path : String) : segments path ≠ [] := by
  simpa [segments, Text.splitText] using Text.split_ne_nil '.' path.toList

/-! ## Dead ends -/

theorem child_of_not_isContainer (h : value.isContainer = false) (segment : String) :
    child value segment = .null := by
  cases value with
  | array items => cases h
  | object fields => cases h
  | _ => rfl

theorem foldl_child_null (segments : List String) : segments.foldl child .null = .null := by
  induction segments with
  | nil => rfl
  | cons segment rest ih => exact ih

/-- No way leads on from a value that holds no others. -/
theorem foldl_child_of_not_isContainer (h : value.isContainer = false) {segments : List String}
    (hne : segments ≠ []) : segments.foldl child value = .null := by
  cases segments with
  | nil => exact absurd rfl hne
  | cons segment rest =>
    rw [List.foldl_cons, child_of_not_isContainer h]
    exact foldl_child_null rest

/-! ## Paths that are put together -/

theorem resolve_eq_foldl (payload : Json) {path : String} (h : path ≠ "") :
    resolve payload path = (segments path).foldl child payload :=
  if_neg h

/-- Behind a path that is not empty, the segments of any text are followed from where the path leads. -/
theorem resolve_append (payload : Json) {p : String} (hp : p ≠ "") (q : String) :
    resolve payload (p ++ "." ++ q) = (segments q).foldl child (resolve payload p) := by
  have hne : p ++ "." ++ q ≠ "" := by simp
  rw [resolve_eq_foldl _ hne, segments_append, List.foldl_append, ← resolve_eq_foldl _ hp]

/-- A path goes on from another one. From the empty path all others do. -/
inductive Continues : String → String → Prop
  | root {path : String} (hne : path ≠ "") : Continues "" path
  | onward {path : String} (hne : path ≠ "") (rest : String) : Continues path (path ++ "." ++ rest)

/-- What is behind a path is followed from where the path leads, and there is something behind it. -/
theorem Continues.resolve_eq {p longer : String} (h : Continues p longer) :
    ∃ rest, rest ≠ [] ∧ ∀ payload, resolve payload longer = rest.foldl child (resolve payload p) := by
  cases h with
  | root hne => exact ⟨_, segments_ne_nil longer, fun payload => resolve_eq_foldl payload hne⟩
  | onward hne rest => exact ⟨_, segments_ne_nil rest, fun payload => resolve_append payload hne rest⟩

/--
Resolving a path that is put together from two is resolving one after the other, as long as neither is
empty. From where a path leads to null or to any other value that holds no others, every path that goes on
from it leads to null.
-/
theorem resolve_composes (payload : Json) :
    (∀ p q, p ≠ "" → q ≠ "" →
      resolve payload (p ++ "." ++ q) = resolve (resolve payload p) q) ∧
    ∀ p longer, Continues p longer → (resolve payload p).isContainer = false →
      resolve payload longer = .null := by
  refine ⟨fun p q hp hq => ?_, fun p longer hlonger hend => ?_⟩
  · rw [resolve_append payload hp, resolve_eq_foldl _ hq]
  · obtain ⟨rest, hne, hrest⟩ := hlonger.resolve_eq
    rw [hrest]
    exact foldl_child_of_not_isContainer hend hne

/-- An order with one item, and a field without a name. -/
def parcel : Json :=
  .ofFields
    [("items", .array [.ofFields [("sku", .string "A-1"), ("", .bool true)]]), ("note", .null)]

theorem resolve_composes_parcel :
    ("items.0" ≠ "" ∧ "sku" ≠ "" ∧ Continues "items.0.sku" ("items.0.sku" ++ "." ++ "") ∧
      (resolve parcel "items.0.sku").isContainer = false) ∧
    resolve parcel ("items.0" ++ "." ++ "sku") = resolve (resolve parcel "items.0") "sku" ∧
    resolve parcel ("items.0.sku" ++ "." ++ "") = .null := by
  have hcontinues : Continues "items.0.sku" ("items.0.sku" ++ "." ++ "") := .onward (by decide) ""
  have hend : (resolve parcel "items.0.sku").isContainer = false := by decide +kernel
  refine ⟨⟨by decide, by decide, hcontinues, hend⟩, ?_, ?_⟩
  · exact (resolve_composes parcel).1 "items.0" "sku" (by decide) (by decide)
  · exact (resolve_composes parcel).2 _ _ hcontinues hend

-- behind a point an empty text is a segment, while the empty path is none
example :
    (resolve parcel ("items.0" ++ "." ++ "")).isContainer = false ∧
      (resolve (resolve parcel "items.0") "").isContainer = true := by
  decide +kernel

end Path

end WorkflowRules
