/-!
# White space

Names, triggers and field paths count as blank when nothing but white space is in them. White
space is the Unicode property `White_Space`, given as a table of ranges; it contains more than
the four characters that JSON allows between its tokens.
-/

namespace WorkflowRules.Text

/-- The code points of the Unicode property `White_Space`, as closed ranges in ascending order. -/
def whiteSpaceRanges : List (Nat × Nat) :=
  [(0x09, 0x0D), (0x20, 0x20), (0x85, 0x85), (0xA0, 0xA0), (0x1680, 0x1680), (0x2000, 0x200A),
   (0x2028, 0x2029), (0x202F, 0x202F), (0x205F, 0x205F), (0x3000, 0x3000)]

/-- Whether a character has the Unicode property `White_Space`. -/
def isWhiteSpace (c : Char) : Bool :=
  whiteSpaceRanges.any fun range => range.1 ≤ c.toNat && c.toNat ≤ range.2

/-- Leading white space removed. -/
def trimStart (cs : List Char) : List Char :=
  cs.dropWhile isWhiteSpace

/-- White space removed at both ends. -/
def trim (cs : List Char) : List Char :=
  (trimStart (trimStart cs).reverse).reverse

/-- A text is blank when it holds white space only; the empty text is blank. -/
def isBlank (s : String) : Bool :=
  s.toList.all isWhiteSpace

/-- A text is blank exactly when nothing is left of it after trimming. -/
theorem isBlank_iff_trim_eq_nil (s : String) : isBlank s = true ↔ trim s.toList = [] := by
  have key : ∀ cs : List Char, trimStart cs = [] ↔ cs.all isWhiteSpace = true := by
    intro cs
    induction cs with
    | nil => simp [trimStart]
    | cons c rest ih =>
      by_cases h : isWhiteSpace c <;> simp_all [trimStart, List.dropWhile]
  unfold isBlank trim
  rw [List.reverse_eq_nil_iff, key, List.all_reverse]
  constructor
  · intro h
    rw [(key _).2 h]
    rfl
  · intro h
    rw [← key]
    cases hs : trimStart s.toList with
    | nil => rfl
    | cons c rest =>
      rw [hs] at h
      have hc : isWhiteSpace c = false := by
        have := List.head?_dropWhile_not isWhiteSpace s.toList
        rw [show s.toList.dropWhile isWhiteSpace = c :: rest from hs] at this
        simpa using this
      simp [hc] at h

end WorkflowRules.Text
