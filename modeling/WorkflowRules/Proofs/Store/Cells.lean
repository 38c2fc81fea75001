import WorkflowRules.Json.Print
import WorkflowRules.Store.Cell

/-!
# What JSON columns hold

The text of a value is just a number exactly when the value is one. So a JSON column keeps the text
of every other value, and the text of a number is lost to it.

* `Store.isNumber_print` — the values whose texts are just numbers
* `Store.Cell.ofText_print`, `Store.Cell.ofText_number` — what a column holds after a value was written
-/

namespace WorkflowRules

open Number (Binary64 FloatLayout positional scientific)
open Text (digitChar natDigits natText intText)

namespace Text

theorem isDigit_digitChar (n : Nat) : (digitChar n).isDigit = true := by
  have h : ∀ d < 10, (Char.ofNat ('0'.toNat + d)).isDigit = true := by decide
  exact h (n % 10) (Nat.mod_lt n (by decide))

/-- A whole number is written in digits. -/
theorem isDigit_natDigits (n : Nat) : ∀ c ∈ natDigits n, c.isDigit = true := by
  induction n using natDigits.induct with
  | case1 n h =>
    rw [natDigits, if_pos h]
    simp [isDigit_digitChar]
  | case2 n h ih =>
    rw [natDigits, if_neg h]
    intro c hc
    rcases List.mem_append.1 hc with hc | hc
    · exact ih c hc
    · rw [List.mem_singleton.1 hc]
      exact isDigit_digitChar n

theorem natDigits_ne_nil (n : Nat) : natDigits n ≠ [] := by
  rw [natDigits]
  split <;> simp

end Text

namespace Store

open Text (isDigit_natDigits natDigits_ne_nil)

/-! ## Texts that are not numbers -/

/-- A text that starts with none of the characters of a number is no number. -/
theorem isNumber_eq_false {s : String} {c : Char} {rest : List Char} (h : s.toList = c :: rest)
    (space : isSpace c = false) (digit : c.isDigit = false) (mark : c ∉ ['+', '-', '.', 'e', 'E']) :
    isNumber s = false := by
  simp only [List.mem_cons, List.not_mem_nil, or_false, not_or] at mark
  obtain ⟨hplus, hminus, hpoint, he, hE⟩ := mark
  -- nothing is taken from the text, neither a sign nor digits, a fraction or an exponent
  have hsign : skipSign (c :: rest) = c :: rest := by
    unfold skipSign
    split <;> simp_all
  have hdigits : takeDigits (c :: rest) = ([], c :: rest) := by
    simp [takeDigits, digit]
  have hfraction : skipFraction (c :: rest) = (false, c :: rest) := by
    unfold skipFraction
    split <;> simp_all
  have hexponent : skipExponent? (c :: rest) = some (c :: rest) := by
    simp [skipExponent?, he, hE]
  unfold isNumber
  rw [h, List.dropWhile_cons_of_neg (by simp [space]), hsign, hdigits]
  simp only [hfraction, hexponent]
  simp

/-! ## Texts that are numbers -/

/-- A text that starts with digits. -/
theorem takeDigits_append {ds rest : List Char} (hds : ∀ c ∈ ds, c.isDigit = true)
    (hrest : ∀ c, rest.head? = some c → c.isDigit = false) :
    takeDigits (ds ++ rest) = (ds, rest) := by
  induction ds with
  | nil =>
    cases rest with
    | nil => rfl
    | cons c rest =>
      have := hrest c rfl
      simp [takeDigits, this]
  | cons d ds ih =>
    have hd := hds d List.mem_cons_self
    have hrec := ih fun c hc => hds c (List.mem_cons_of_mem _ hc)
    simp only [takeDigits, Prod.mk.injEq] at hrec ⊢
    simp [hd, hrec.1, hrec.2]

theorem takeDigits_eq_self {ds : List Char} (hds : ∀ c ∈ ds, c.isDigit = true) :
    takeDigits ds = (ds, []) := by
  have h : takeDigits (ds ++ []) = (ds, []) := takeDigits_append hds (by simp)
  rwa [List.append_nil] at h

/-- An exponent as it stands after the digits of a number. -/
inductive IsExponent : List Char → Prop
  | absent : IsExponent []
  | written {mark ds : List Char} (signed : mark = ['e', '-'] ∨ mark = ['e', '+'])
      (digits : ∀ c ∈ ds, c.isDigit = true) (present : ds ≠ []) : IsExponent (mark ++ ds)

/-- An exponent is skipped to its end. -/
theorem skipExponent?_of_isExponent {cs : List Char} (h : IsExponent cs) :
    skipExponent? cs = some [] := by
  cases h with
  | absent => rfl
  | written signed digits present =>
    rcases signed with rfl | rfl <;>
      simp [skipExponent?, skipSign, takeDigits_eq_self digits, present]

theorem IsExponent.head_not_digit {cs : List Char} (h : IsExponent cs) :
    ∀ c, cs.head? = some c → c.isDigit = false ∧ c ≠ '.' := by
  cases h with
  | absent => simp
  | written signed digits present =>
    rcases signed with rfl | rfl <;> simp

/-- Digits, perhaps a point with digits, and perhaps an exponent. -/
structure IsNumeral (whole fraction exponent : List Char) : Prop where
  digits : ∀ c ∈ whole, c.isDigit = true
  present : whole ≠ []
  point : fraction = [] ∨ ∃ ds, fraction = '.' :: ds ∧ ∀ c ∈ ds, c.isDigit = true
  mark : IsExponent exponent

/-- A numeral is a number, with a minus sign or without. -/
theorem isNumber_of_numeral {s : String} {minus whole fraction exponent : List Char}
    (hminus : minus = [] ∨ minus = ['-']) (h : IsNumeral whole fraction exponent)
    (hs : s.toList = minus ++ (whole ++ (fraction ++ exponent))) : isNumber s = true := by
  obtain ⟨d, ds, rfl⟩ := List.exists_cons_of_ne_nil h.present
  have hd : d.isDigit = true := h.digits d List.mem_cons_self
  have hspace : isSpace d = false := by
    simp only [Char.isDigit, Bool.and_eq_true, decide_eq_true_eq] at hd
    have h₀ : ('0' : Char).toNat ≤ d.toNat := hd.1
    have hne : d ≠ ' ' := by
      rintro rfl
      exact absurd h₀ (by decide)
    have h48 : ('0' : Char).toNat = 48 := rfl
    simp only [isSpace, hne, decide_false, Bool.false_or, Bool.and_eq_false_imp, decide_eq_true_eq]
    intro _
    exact decide_eq_false (by omega)
  -- the scan is followed stage by stage: sign, digits, fraction, exponent
  have hsign : skipSign (s.toList.dropWhile isSpace) = (d :: ds) ++ (fraction ++ exponent) := by
    rcases hminus with rfl | rfl
    · rw [hs, List.nil_append, List.cons_append, List.dropWhile_cons_of_neg (by simp [hspace])]
      unfold skipSign
      split
      · next heq => cases heq; exact absurd hd (by decide)
      · next heq => cases heq; exact absurd hd (by decide)
      · rfl
    · rw [hs]
      rfl
  have hexp := h.mark.head_not_digit
  have hwhole : takeDigits ((d :: ds) ++ (fraction ++ exponent)) = (d :: ds, fraction ++ exponent) := by
    refine takeDigits_append h.digits fun c hc => ?_
    rcases h.point with rfl | ⟨fs, rfl, -⟩
    · exact (hexp c hc).1
    · cases hc
      rfl
  have hfraction : (skipFraction (fraction ++ exponent)).2 = exponent := by
    rcases h.point with rfl | ⟨fs, rfl, hfs⟩
    · rw [List.nil_append]
      unfold skipFraction
      split
      · exact absurd rfl (hexp '.' rfl).2
      · rfl
    · have := takeDigits_append hfs fun c hc => (hexp c hc).1
      simp [skipFraction, this]
  unfold isNumber
  rw [hsign, hwhole]
  simp only [hfraction, skipExponent?_of_isExponent h.mark]
  simp

theorem isDigit_of_mem_replicate {n : Nat} {c : Char} (h : c ∈ List.replicate n '0') :
    c.isDigit = true := by
  rw [List.eq_of_mem_replicate h]
  rfl

/-- Digits with a point among them. -/
theorem exists_numeral_positional {ds : List Char} (hds : ∀ c ∈ ds, c.isDigit = true)
    (hne : ds ≠ []) (e : Int) :
    ∃ whole fraction, IsNumeral whole fraction [] ∧ positional ds e = whole ++ fraction := by
  unfold positional
  split
  · refine ⟨['0'], '.' :: (List.replicate ((-e).toNat - 1) '0' ++ ds), ⟨?_, by simp, .inr ⟨_, rfl, ?_⟩, .absent⟩, by simp⟩
    · simp
    · intro c hc
      rcases List.mem_append.1 hc with hc | hc
      · exact isDigit_of_mem_replicate hc
      · exact hds c hc
  · refine ⟨ds.take (e.toNat + 1) ++ List.replicate (e.toNat + 1 - ds.length) '0',
      '.' :: (if (ds.drop (e.toNat + 1)).isEmpty then ['0'] else ds.drop (e.toNat + 1)),
      ⟨?_, ?_, .inr ⟨_, rfl, ?_⟩, .absent⟩, by simp⟩
    · intro c hc
      rcases List.mem_append.1 hc with hc | hc
      · exact hds c (List.mem_of_mem_take hc)
      · exact isDigit_of_mem_replicate hc
    · simp [hne]
    · intro c hc
      split at hc
      · rw [List.mem_singleton.1 hc]
        rfl
      · exact hds c (List.mem_of_mem_drop hc)

/-- Digits with a point after the first of them, and an exponent. -/
theorem exists_numeral_scientific {ds : List Char} (hds : ∀ c ∈ ds, c.isDigit = true)
    (hne : ds ≠ []) (e : Int) :
    ∃ whole fraction exponent, IsNumeral whole fraction exponent ∧
      scientific Json.floatLayout ds e = whole ++ (fraction ++ exponent) := by
  unfold scientific
  refine ⟨ds.take 1, if (ds.drop 1).isEmpty then [] else '.' :: ds.drop 1,
    (if e < 0 then ['e', '-'] else ['e', '+']) ++ natDigits e.natAbs,
    ⟨fun c hc => hds c (List.mem_of_mem_take hc), by simp [hne], ?_, ?_⟩, ?_⟩
  · split
    · exact .inl rfl
    · exact .inr ⟨_, rfl, fun c hc => hds c (List.mem_of_mem_drop hc)⟩
  · refine .written ?_ (isDigit_natDigits _) (natDigits_ne_nil _)
    split <;> simp
  · by_cases he : e < 0 <;> simp [he, Json.floatLayout]

/-- The text of a binary64 number looks like a number to the database. -/
theorem isNumber_float (x : Binary64) : isNumber (Json.Number.float x).text = true := by
  have hsign : (if x.negative then ['-'] else []) = [] ∨ (if x.negative then ['-'] else []) = ['-'] := by
    split <;> simp
  have hdigits := isDigit_natDigits (Number.shortest x.magnitude).digits
  have hne := natDigits_ne_nil (Number.shortest x.magnitude).digits
  -- zero, the positional layout and the layout with an exponent
  have hshape : ∃ whole fraction exponent, IsNumeral whole fraction exponent ∧
      x.text Json.floatLayout =
        (if x.negative then ['-'] else []) ++ (whole ++ (fraction ++ exponent)) := by
    unfold Binary64.text
    by_cases hzero : x.magnitude = 0
    · rw [if_pos hzero]
      exact ⟨['0'], ['.', '0'], [], ⟨by simp, by simp, .inr ⟨['0'], rfl, by simp⟩, .absent⟩, rfl⟩
    · rw [if_neg hzero]
      dsimp only
      generalize (Number.shortest x.magnitude).exponent + _ - 1 = e
      by_cases hlayout : (Json.floatLayout.positionalFrom ≤ e && e ≤ Json.floatLayout.positionalTo) = true
      · obtain ⟨whole, fraction, h, heq⟩ := exists_numeral_positional hdigits hne e
        exact ⟨whole, fraction, [], h, by rw [if_pos hlayout, heq, List.append_nil]⟩
      · obtain ⟨whole, fraction, exponent, h, heq⟩ := exists_numeral_scientific hdigits hne e
        exact ⟨whole, fraction, exponent, h, by rw [if_neg hlayout, heq]⟩
  obtain ⟨whole, fraction, exponent, h, heq⟩ := hshape
  refine isNumber_of_numeral hsign h ?_
  rw [Json.Number.text, String.toList_ofList, heq]

/-- The text of an integer looks like a number to the database. -/
theorem isNumber_integer (n : Int) : isNumber (intText n) = true := by
  have h : IsNumeral (natDigits n.natAbs) [] [] :=
    ⟨isDigit_natDigits _, natDigits_ne_nil _, .inl rfl, .absent⟩
  unfold intText
  split
  · refine isNumber_of_numeral (.inr rfl) h ?_
    simp
  · refine isNumber_of_numeral (.inl rfl) h ?_
    simp [natText]

/-! ## Columns -/

/-- Whether a value is a number and nothing more. -/
def isBareNumber : Json → Bool
  | .number _ => true
  | _ => false

/-- The text of a value is just a number exactly when the value is one. -/
theorem isNumber_print (j : Json) : isNumber j.print = isBareNumber j := by
  cases j with
  | null => decide
  | bool b => cases b <;> decide
  | number n =>
    rw [Json.print]
    cases n with
    | integer n h => exact isNumber_integer n
    | float x => exact isNumber_float x
  | string s =>
    have h : (Json.print (.string s)).toList = '"' :: (s.toList.flatMap Json.escaped ++ ['"']) := by
      simp [Json.print, Json.quoted]
    exact isNumber_eq_false h rfl rfl (by decide)
  | array items =>
    have h : (Json.print (.array items)).toList = '[' :: ((Json.printItems items).toList ++ [']']) := by
      simp [Json.print]
    exact isNumber_eq_false h rfl rfl (by decide)
  | object fields =>
    have h : (Json.print (.object fields)).toList =
        '{' :: ((Json.printFields fields).toList ++ ['}']) := by
      simp [Json.print]
    exact isNumber_eq_false h rfl rfl (by decide)

theorem Cell.ofText_print {j : Json} (h : isBareNumber j = false) :
    Cell.ofText j.print = .text j.print := by
  rw [Cell.ofText, isNumber_print, h]
  rfl

theorem Cell.ofText_number {j : Json} (h : isBareNumber j = true) :
    Cell.ofText j.print = .number := by
  rw [Cell.ofText, isNumber_print, h]
  rfl

end Store

end WorkflowRules
