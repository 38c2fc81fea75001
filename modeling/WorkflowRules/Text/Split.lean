/-!
# Splitting texts

A separator cuts a text into parts; there is one part more than there are separators.
-/

namespace WorkflowRules.Text

/-- The parts of a text between separators; there is always at least one. -/
def split (separator : Char) : List Char → List (List Char)
  | [] => [[]]
  | c :: rest =>
    if c = separator then [] :: split separator rest
    else
      match split separator rest with
      | [] => [[c]]
      | first :: others => (c :: first) :: others

theorem split_ne_nil (separator : Char) (cs : List Char) : split separator cs ≠ [] := by
  cases cs with
  | nil => simp [split]
  | cons c rest =>
    unfold split
    split
    · simp
    · split <;> simp

/-- The parts of a text between separators, as texts. -/
def splitText (separator : Char) (s : String) : List String :=
  (split separator s.toList).map String.ofList

/-- Whether a pattern occurs somewhere in a text. -/
def occurs (pattern : List Char) : List Char → Bool
  | [] => pattern.isEmpty
  | c :: rest => pattern.isPrefixOf (c :: rest) || occurs pattern rest

end WorkflowRules.Text
