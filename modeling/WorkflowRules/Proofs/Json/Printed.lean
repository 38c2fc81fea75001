import WorkflowRules.Json.Scan
import WorkflowRules.Proofs.Json.Tokens

/-!
# Scans of printed values

The scan of the text of a value is the scan of the value itself, when the numbers in it are read
back. The induction is on the value. What it carries is that a text which goes on behind the value
is read as if the value had been put into the innermost container at once.

* `Json.Exact` — values whose numbers are read back
* `Document.ofText_print` — the scan of the text of such a value
-/

namespace WorkflowRules.Json

mutual

/-- Every number in a value is denoted by its text. -/
def Exact : Json → Prop
  | .null | .bool _ | .string _ => True
  | .number n => n.ReadsBack
  | .array items => ExactItems items
  | .object fields => ExactFields fields

/-- Every number in the items of an array is denoted by its text. -/
def ExactItems : List Json → Prop
  | [] => True
  | v :: rest => Exact v ∧ ExactItems rest

/-- Every number in the fields of an object is denoted by its text. -/
def ExactFields : List (String × Json) → Prop
  | [] => True
  | (_, v) :: rest => Exact v ∧ ExactFields rest

end

theorem exactItems_iff {items : List Json} : ExactItems items ↔ ∀ v ∈ items, Exact v := by
  induction items with
  | nil => simp [ExactItems]
  | cons v rest ih => simp [ExactItems, ih]

/-- An object is exact when its values are. -/
theorem exactFields_iff {fields : List (String × Json)} :
    ExactFields fields ↔ ∀ field ∈ fields, Exact field.2 := by
  induction fields with
  | nil => simp [ExactFields]
  | cons field rest ih => simp [ExactFields, ih]

/-! ## Tokens -/

theorem tokens_nil : tokens [] = [] := by
  rw [tokens]
  rfl

/-- A text that starts with a token. -/
theorem tokens_cons {c : Char} {cs after : List Char} {t : Token} (space : isSpace c = false)
    (h : nextToken? (c :: cs) = some (t, after)) : tokens (c :: cs) = t :: tokens after := by
  rw [tokens]
  split
  · next hd => simp [space] at hd
  · next c' cs' hd =>
    rw [List.dropWhile_cons_of_neg (by simp [space])] at hd
    obtain ⟨rfl, rfl⟩ := List.cons.inj hd
    split
    · next ht =>
      rw [h] at ht
      cases ht
    · next ht =>
      obtain ⟨rfl, rfl⟩ := Prod.mk.inj (Option.some.inj (h.symm.trans ht))
      rfl

/-- A string that was written is one token. -/
theorem tokens_quoted (s : String) (rest : List Char) :
    tokens ((quoted s).toList ++ rest) = .string (some s) :: tokens rest := by
  have h := nextToken?_quoted s rest
  have htext : (quoted s).toList ++ rest = '"' :: (s.toList.flatMap escaped ++ '"' :: rest) := by
    simp [quoted]
  rw [htext] at h ⊢
  exact tokens_cons rfl h

/-- A number that is read back is one token, if what follows cannot go on with it. -/
theorem tokens_number {n : Number} (h : n.ReadsBack) {rest : List Char} (hrest : EndsNumber rest) :
    tokens (n.text.toList ++ rest) = .number (some n) :: tokens rest := by
  have hnext := nextToken?_number h hrest
  obtain ⟨c, cs, _, htext, hhead, -, -⟩ := h.exists_numeral
  rw [htext] at hnext ⊢
  refine tokens_cons ?_ hnext
  -- neither a minus sign nor a digit is white space
  by_contra hspace
  simp only [isSpace, Bool.not_eq_false, Bool.or_eq_true, beq_iff_eq] at hspace
  rcases hspace with ((rfl | rfl) | rfl) | rfl <;> revert hhead <;> decide

/-! ## Scans -/

namespace Scan

/-- Reads on after a token. -/
def resume : Progress → List Token → Document
  | .open stack next, rest => assemble stack next rest
  | .done v, rest => ⟨v, rest.isEmpty⟩

theorem resume_item (v : Scan) (items : List Scan) (outer : List Frame) (rest : List Token) :
    resume (place v (.array items :: outer)) rest =
      assemble (.array (v :: items) :: outer) .separator rest := rfl

theorem resume_field (v : Scan) (fields : List (Option String × Scan)) (key : Option String)
    (outer : List Frame) (rest : List Token) :
    resume (place v (.field fields key :: outer)) rest =
      assemble (.object ((key, v) :: fields) :: outer) .separator rest := rfl

/-- Tokens are taken in one by one. -/
theorem assemble_cons {stack : List Frame} {next : Expecting} {t : Token} {p : Progress}
    (h : step stack next t = .ok p) (rest : List Token) :
    assemble stack next (t :: rest) = resume p rest := by
  rw [assemble, h]
  cases p <;> rfl

theorem assemble_comma_item (items : List Scan) (outer : List Frame) (rest : List Token) :
    assemble (.array items :: outer) .separator (.comma :: rest) =
      assemble (.array items :: outer) .value rest :=
  assemble_cons (show step _ _ _ = .ok (.open (.array items :: outer) .value) from rfl) rest

theorem assemble_comma_field (fields : List (Option String × Scan)) (outer : List Frame)
    (rest : List Token) :
    assemble (.object fields :: outer) .separator (.comma :: rest) =
      assemble (.object fields :: outer) .key rest :=
  assemble_cons (show step _ _ _ = .ok (.open (.object fields :: outer) .key) from rfl) rest

/-- Where a value may start. -/
def AtValue (next : Expecting) : Prop := next = .value ∨ next = .firstItem

/-- Where a key may start. -/
def AtKey (next : Expecting) : Prop := next = .key ∨ next = .firstKey

/-- A value that is a single token. -/
theorem assemble_value {next : Expecting} (hnext : AtValue next) {stack : List Frame} {t : Token}
    {p : Progress} (h : startValue? stack t = some p) (rest : List Token) :
    assemble stack next (t :: rest) = resume p rest := by
  refine assemble_cons ?_ rest
  rcases hnext with rfl | rfl
  · simp [step, h]
  · cases t <;> cases h <;> rfl

/-- A key and its colon, wherever a key may start. -/
theorem assemble_key {next : Expecting} (hnext : AtKey next) {stack : List Frame}
    {before : List (Option String × Scan)} {n : String} {rest : List Char} :
    assemble (.object before :: stack) next (tokens ((quoted n).toList ++ ':' :: rest)) =
      assemble (.field before (some n) :: stack) .value (tokens rest) := by
  have hkey : step (.object before :: stack) next (.string (some n)) =
      .ok (.open (.field before (some n) :: stack) (.colon (some n))) := by
    rcases hnext with rfl | rfl <;> rfl
  have hcolon : step (.field before (some n) :: stack) (.colon (some n)) .colon =
      .ok (.open (.field before (some n) :: stack) .value) := rfl
  rw [tokens_quoted, assemble_cons hkey, tokens_cons rfl rfl, resume, assemble_cons hcolon, resume]

theorem endsNumber_nil : EndsNumber [] := by
  simp [EndsNumber]

/-- What follows a value in the text of a larger one is no part of a number. -/
theorem endsNumber_mark {c : Char} (h : c = ',' ∨ c = ']' ∨ c = '}') (rest : List Char) :
    EndsNumber (c :: rest) := by
  intro d hd
  obtain rfl := Option.some.inj hd
  rcases h with rfl | rfl | rfl <;> decide

mutual

/-- The text of a value is read as the value, wherever a value may start. -/
theorem assemble_print {next : Expecting} (hnext : AtValue next) (stack : List Frame)
    {rest : List Char} (hrest : EndsNumber rest) : ∀ j : Json, j.Exact →
    assemble stack next (tokens (j.print.toList ++ rest)) =
      resume (place (ofValue j) stack) (tokens rest)
  | .null, _ => by
    rw [show (Json.null.print.toList ++ rest) = 'n' :: 'u' :: 'l' :: 'l' :: rest from rfl,
      tokens_cons rfl rfl]
    exact assemble_value hnext rfl _
  | .bool true, _ => by
    rw [show ((Json.bool true).print.toList ++ rest) = 't' :: 'r' :: 'u' :: 'e' :: rest from rfl,
      tokens_cons rfl rfl]
    exact assemble_value hnext rfl _
  | .bool false, _ => by
    rw [show ((Json.bool false).print.toList ++ rest) = 'f' :: 'a' :: 'l' :: 's' :: 'e' :: rest
      from rfl, tokens_cons rfl rfl]
    exact assemble_value hnext rfl _
  | .number n, h => by
    rw [print, tokens_number h hrest]
    exact assemble_value hnext rfl _
  | .string s, _ => by
    rw [print, tokens_quoted]
    exact assemble_value hnext rfl _
  | .array [], _ => by
    rw [show ((Json.array []).print.toList ++ rest) = '[' :: ']' :: rest from rfl,
      tokens_cons rfl rfl, tokens_cons rfl rfl, assemble_value hnext rfl]
    exact assemble_cons rfl _
  | .array (v :: vs), h => by
    have htext : (Json.array (v :: vs)).print.toList ++ rest =
        '[' :: ((printItems (v :: vs)).toList ++ ']' :: rest) := by
      simp [print]
    rw [htext, tokens_cons rfl rfl, assemble_value hnext rfl]
    exact assemble_printItems (.inr rfl) stack [] rest v vs h
  | .object [], _ => by
    rw [show ((Json.object []).print.toList ++ rest) = '{' :: '}' :: rest from rfl,
      tokens_cons rfl rfl, tokens_cons rfl rfl, assemble_value hnext rfl]
    exact assemble_cons rfl _
  | .object ((n, v) :: fs), h => by
    have htext : (Json.object ((n, v) :: fs)).print.toList ++ rest =
        '{' :: ((printFields ((n, v) :: fs)).toList ++ '}' :: rest) := by
      simp [print]
    rw [htext, tokens_cons rfl rfl, assemble_value hnext rfl]
    exact assemble_printFields (.inr rfl) stack [] rest n v fs h
termination_by j => sizeOf j

/-- The items of an array are added to those before them, up to the closing bracket. -/
theorem assemble_printItems {next : Expecting} (hnext : AtValue next) (stack : List Frame)
    (before : List Scan) (rest : List Char) : ∀ (v : Json) (vs : List Json), ExactItems (v :: vs) →
    assemble (.array before :: stack) next (tokens ((printItems (v :: vs)).toList ++ ']' :: rest)) =
      resume (place (.array (before.reverse ++ ofItems (v :: vs)) .closed) stack) (tokens rest)
  | v, [], h => by
    rw [printItems, assemble_print hnext _ (endsNumber_mark (by simp) _) v h.1,
      tokens_cons rfl rfl, resume_item]
    refine assemble_cons ?_ _
    simp [step, close?, ofItems]
  | v, w :: vs, h => by
    have htext : (printItems (v :: w :: vs)).toList ++ ']' :: rest =
        v.print.toList ++ ',' :: ((printItems (w :: vs)).toList ++ ']' :: rest) := by
      simp [printItems]
    rw [htext, assemble_print hnext _ (endsNumber_mark (by simp) _) v h.1, tokens_cons rfl rfl,
      resume_item, assemble_comma_item,
      assemble_printItems (.inl rfl) stack (ofValue v :: before) rest w vs h.2]
    simp [ofItems]
termination_by v vs => sizeOf (v :: vs)

/-- The fields of an object are added to those before them, up to the closing bracket. -/
theorem assemble_printFields {next : Expecting} (hnext : AtKey next) (stack : List Frame)
    (before : List (Option String × Scan)) (rest : List Char) :
    ∀ (n : String) (v : Json) (fs : List (String × Json)), ExactFields ((n, v) :: fs) →
    assemble (.object before :: stack) next
        (tokens ((printFields ((n, v) :: fs)).toList ++ '}' :: rest)) =
      resume (place (.object (before.reverse ++ ofFields ((n, v) :: fs)) .closed) stack)
        (tokens rest)
  | n, v, [], h => by
    have htext : (printFields [(n, v)]).toList ++ '}' :: rest =
        (quoted n).toList ++ ':' :: (v.print.toList ++ '}' :: rest) := by
      simp [printFields]
    rw [htext, assemble_key hnext, assemble_print (.inl rfl) _ (endsNumber_mark (by simp) _) v h.1,
      tokens_cons rfl rfl, resume_field]
    refine assemble_cons ?_ _
    simp [step, close?, ofFields]
  | n, v, (m, w) :: fs, h => by
    have htext : (printFields ((n, v) :: (m, w) :: fs)).toList ++ '}' :: rest =
        (quoted n).toList ++ ':' :: (v.print.toList ++
          ',' :: ((printFields ((m, w) :: fs)).toList ++ '}' :: rest)) := by
      simp [printFields]
    rw [htext, assemble_key hnext, assemble_print (.inl rfl) _ (endsNumber_mark (by simp) _) v h.1,
      tokens_cons rfl rfl, resume_field, assemble_comma_field,
      assemble_printFields (.inl rfl) stack ((some n, ofValue v) :: before) rest m w fs h.2]
    simp [ofFields]
termination_by n v fs => sizeOf ((n, v) :: fs)

end

end Scan

/-- The scan of the text of a value is the scan of the value. -/
theorem Document.ofText_print {j : Json} (h : j.Exact) :
    Document.ofText j.print = ⟨Scan.ofValue j, true⟩ := by
  have hscan := Scan.assemble_print (.inl rfl) [] Scan.endsNumber_nil j h
  rw [List.append_nil] at hscan
  rw [Document.ofText, hscan, tokens_nil]
  rfl

end WorkflowRules.Json
