import Mathlib.Data.List.TakeWhile
import WorkflowRules.Json.Print
import WorkflowRules.Json.Token
import WorkflowRules.Proofs.Text.Digits

/-!
# Tokens of printed values

The text of a value is cut into the tokens that it was put together from. Strings are always read
back, and so are integers. A binary64 number is read in two roundings, so whether its text denotes
it again is a property of the number.

* `Json.nextToken?_quoted`, `Json.takeString?_escaped` — strings
* `Json.Number.ReadsBack` — numbers whose texts denote them; all integers are among them
* `Json.nextToken?_number` — such numbers
-/

namespace WorkflowRules.Json

open Text

/-! ## Strings -/

theorem hexValue?_hexDigit {n : Nat} (h : n < 16) : hexValue? (hexDigit n) = some n := by
  have h : ∀ n < 16, hexValue? (hexDigit n) = some n := by decide
  exact h n ‹_›

theorem hexUnit?_hexDigit {n : Nat} (h : n < 256) :
    hexUnit? '0' '0' (hexDigit (n / 16)) (hexDigit (n % 16)) = some n := by
  have hzero : hexValue? '0' = some 0 := by decide
  simp only [hexUnit?, hzero, hexValue?_hexDigit (show n / 16 < 16 by omega),
    hexValue?_hexDigit (show n % 16 < 16 by omega)]
  show some _ = _
  congr 1
  omega

/-- A UTF-16 unit below the surrogates stands for a character of its own. -/
theorem joinPieces?_unit {c : Char} (h : c.toNat < 0xD800) (ps : List StringPiece) :
    joinPieces? (.unit c.toNat :: ps) = (joinPieces? ps).map (c :: ·) := by
  have hlow : ¬ (0xD800 ≤ c.toNat ∧ c.toNat < 0xDC00) := by omega
  have hhigh : ¬ (0xDC00 ≤ c.toNat ∧ c.toNat < 0xE000) := by omega
  have hall : ¬ (0xD800 ≤ c.toNat ∧ c.toNat < 0xE000) := by omega
  rcases ps with _ | ⟨_ | _, _⟩
  · simp [joinPieces?, hall]
  · simp [joinPieces?, hall]
  · rw [joinPieces?, if_neg hlow, if_neg hhigh, Char.ofNat_toNat]

/-- An escaped character is one piece of a string, and stands for that character. -/
theorem exists_piece (c : Char) :
    ∃ p, (∀ rest, takeString? (escaped c ++ rest) =
        (takeString? rest).map fun r => (p :: r.1, r.2)) ∧
      ∀ ps, joinPieces? (p :: ps) = (joinPieces? ps).map (c :: ·) := by
  have char (c : Char) : ∀ ps, joinPieces? (.char c :: ps) = (joinPieces? ps).map (c :: ·) :=
    fun ps => by rw [joinPieces?]
  -- seven characters have short escapes, other control characters a number, the rest none
  unfold escaped
  split
  · next h => exact ⟨.char '"', fun rest => by simp [takeString?, simpleEscape?], h ▸ char _⟩
  split
  · next h => exact ⟨.char '\\', fun rest => by simp [takeString?, simpleEscape?], h ▸ char _⟩
  split
  · next h => exact ⟨.char '\n', fun rest => by simp [takeString?, simpleEscape?], h ▸ char _⟩
  split
  · next h => exact ⟨.char '\r', fun rest => by simp [takeString?, simpleEscape?], h ▸ char _⟩
  split
  · next h => exact ⟨.char '\t', fun rest => by simp [takeString?, simpleEscape?], h ▸ char _⟩
  split
  · next h =>
    obtain rfl : c = Char.ofNat 0x08 := by rw [← h, Char.ofNat_toNat]
    exact ⟨.char (Char.ofNat 0x08), fun rest => by simp [takeString?, simpleEscape?], char _⟩
  split
  · next h =>
    obtain rfl : c = Char.ofNat 0x0C := by rw [← h, Char.ofNat_toNat]
    exact ⟨.char (Char.ofNat 0x0C), fun rest => by simp [takeString?, simpleEscape?], char _⟩
  split
  · next h =>
    refine ⟨.unit c.toNat, fun rest => ?_, joinPieces?_unit (c := c) (by omega)⟩
    simp only [List.cons_append, List.nil_append]
    rw [takeString?, hexUnit?_hexDigit (by omega)]
  · next hquote hslash _ _ _ _ _ hcontrol =>
    refine ⟨.char c, fun rest => ?_, char c⟩
    rw [List.singleton_append, takeString?.eq_def]
    split
    · next heq => cases heq
    · next heq => exact absurd (List.cons.inj heq).1 hquote
    · next heq => exact absurd (List.cons.inj heq).1 hslash
    · next heq => exact absurd (List.cons.inj heq).1 hslash
    · next heq =>
      obtain ⟨rfl, rfl⟩ := List.cons.inj heq
      rw [if_neg fun h => h.elim hcontrol hslash]

theorem takeString?_escaped (cs rest : List Char) :
    ∃ ps, takeString? (cs.flatMap escaped ++ '"' :: rest) = some (ps, rest) ∧
      joinPieces? ps = some cs := by
  induction cs with
  | nil => exact ⟨[], by simp [takeString?], by rw [joinPieces?]⟩
  | cons c cs ih =>
    obtain ⟨ps, htake, hjoin⟩ := ih
    obtain ⟨p, hp, hps⟩ := exists_piece c
    refine ⟨p :: ps, ?_, ?_⟩
    · rw [List.flatMap_cons, List.append_assoc, hp, htake]
      rfl
    · rw [hps, hjoin]
      rfl

/-- A string in quotes is one token. -/
theorem nextToken?_quoted (s : String) (rest : List Char) :
    nextToken? ((quoted s).toList ++ rest) = some (.string (some s), rest) := by
  obtain ⟨ps, htake, hjoin⟩ := takeString?_escaped s.toList rest
  have htext : (quoted s).toList ++ rest = '"' :: (s.toList.flatMap escaped ++ '"' :: rest) := by
    simp [quoted]
  rw [htext, nextToken?, htake]
  simp [hjoin]

/-! ## Numbers -/

/-- What may follow a number: nothing that could go on with it. -/
def EndsNumber (rest : List Char) : Prop :=
  ∀ c, rest.head? = some c → digitValue? c = none ∧ c ∉ ['.', 'e', 'E']

/-- Digits are taken up to what cannot go on with a number. -/
theorem takeDigits_append {rest : List Char} (h : EndsNumber rest) (cs : List Char) :
    takeDigits (cs ++ rest) = ((takeDigits cs).1, (takeDigits cs).2 ++ rest) := by
  have hrest : rest.takeWhile (fun c => (digitValue? c).isSome) = [] ∧
      rest.dropWhile (fun c => (digitValue? c).isSome) = rest := by
    cases rest with
    | nil => exact ⟨rfl, rfl⟩
    | cons c rest => simp [(h c rfl).1]
  induction cs with
  | nil =>
    simp only [List.nil_append, takeDigits, hrest.1, hrest.2]
    rfl
  | cons c cs ih =>
    simp only [takeDigits, Prod.mk.injEq] at ih ⊢
    by_cases hc : (digitValue? c).isSome = true
    · simp only [List.cons_append, List.takeWhile_cons, List.dropWhile_cons, if_pos hc,
        List.filterMap_cons, ih.1, ih.2]
      exact ⟨trivial, trivial⟩
    · simp only [List.cons_append, List.takeWhile_cons, List.dropWhile_cons, if_neg hc]
      exact ⟨trivial, trivial⟩

/-- A fractional part is taken up to what cannot go on with a number. -/
theorem takePoint?_append {rest : List Char} (h : EndsNumber rest) {cs : List Char}
    {r : List Nat × List Char} (hr : takePoint? cs = some r) :
    takePoint? (cs ++ rest) = some (r.1, r.2 ++ rest) := by
  have none_of_ne {ds : List Char} (hne : ∀ after, ds ≠ '.' :: after) :
      takePoint? ds = some ([], ds) := by
    unfold takePoint?
    split
    · exact absurd rfl (hne _)
    · rfl
  -- what follows a number is no point, so none is added to a number without one
  cases cs with
  | nil =>
    rw [none_of_ne (by simp)] at hr
    obtain rfl := Option.some.inj hr
    refine none_of_ne fun after heq => (h '.' ?_).2 (by simp)
    rw [List.nil_append] at heq
    rw [heq]
    rfl
  | cons c cs =>
    by_cases hc : c = '.'
    · subst hc
      simp only [List.cons_append, takePoint?, takeDigits_append h] at hr ⊢
      rcases hds : takeDigits cs with ⟨_ | ⟨d, ds⟩, after⟩
      · rw [hds] at hr
        cases hr
      · rw [hds] at hr
        obtain rfl := Option.some.inj hr
        rfl
    · have hne (after : List Char) (tail : List Char) : c :: tail ≠ '.' :: after :=
        fun heq => hc (List.cons.inj heq).1
      rw [none_of_ne fun after => hne after cs] at hr
      obtain rfl := Option.some.inj hr
      exact none_of_ne fun after => hne after _

theorem takeSign_append {cs : List Char} (h : cs ≠ []) (rest : List Char) :
    takeSign (cs ++ rest) = ((takeSign cs).1, (takeSign cs).2 ++ rest) := by
  obtain ⟨c, cs, rfl⟩ := List.exists_cons_of_ne_nil h
  by_cases hminus : c = '-'
  · subst hminus
    rfl
  by_cases hplus : c = '+'
  · subst hplus
    rfl
  have hother (tail : List Char) : takeSign (c :: tail) = (false, c :: tail) := by
    unfold takeSign
    split <;> simp_all
  rw [List.cons_append, hother, hother]
  rfl

/-- An exponent is taken up to what cannot go on with a number. -/
theorem takeExponent?_append {rest : List Char} (h : EndsNumber rest) {cs : List Char}
    {r : Option Int × List Char} (hr : takeExponent? cs = some r) :
    takeExponent? (cs ++ rest) = some (r.1, r.2 ++ rest) := by
  cases cs with
  | nil =>
    obtain rfl := Option.some.inj hr
    cases rest with
    | nil => rfl
    | cons c rest =>
      have hc := (h c rfl).2
      simp only [List.mem_cons, List.not_mem_nil, or_false, not_or] at hc
      simp [takeExponent?, hc.2.1, hc.2.2]
  | cons c cs =>
    by_cases hc : c = 'e' ∨ c = 'E'
    · have hne : cs ≠ [] := by
        rintro rfl
        rw [takeExponent?, if_pos hc] at hr
        cases hr
      rw [takeExponent?, if_pos hc] at hr
      rw [List.cons_append, takeExponent?, if_pos hc, takeSign_append hne]
      simp only [takeDigits_append h] at hr ⊢
      rcases hds : takeDigits (takeSign cs).2 with ⟨_ | ⟨d, ds⟩, after⟩
      · rw [hds] at hr
        cases hr
      · rw [hds] at hr
        obtain rfl := Option.some.inj hr
        rfl
    · rw [takeExponent?, if_neg hc] at hr
      obtain rfl := Option.some.inj hr
      rw [List.cons_append, takeExponent?, if_neg hc]

theorem takeMinus_append {cs : List Char} (h : cs ≠ []) (rest : List Char) :
    takeMinus (cs ++ rest) = ((takeMinus cs).1, (takeMinus cs).2 ++ rest) := by
  obtain ⟨c, cs, rfl⟩ := List.exists_cons_of_ne_nil h
  by_cases hminus : c = '-'
  · subst hminus
    rfl
  have hother (tail : List Char) : takeMinus (c :: tail) = (false, c :: tail) := by
    unfold takeMinus
    split <;> simp_all
  rw [List.cons_append, hother, hother]
  rfl

/-- A numeral ends where the text of a number ends. -/
theorem takeNumeral?_append {rest : List Char} (h : EndsNumber rest) {cs : List Char}
    {r : Numeral × List Char} (hr : takeNumeral? cs = some r) :
    takeNumeral? (cs ++ rest) = some (r.1, r.2 ++ rest) := by
  have hne : cs ≠ [] := by
    rintro rfl
    cases hr
  rcases hdigits : takeDigits (takeMinus cs).2 with ⟨whole, afterWhole⟩
  -- sign, digits, fraction and exponent are taken in turn, and none of them takes more than before
  unfold takeNumeral? at hr ⊢
  simp only [takeMinus_append hne, takeDigits_append h, hdigits] at hr ⊢
  split at hr
  · cases hr
  · cases hr
  · next hnil hzero heq =>
    obtain ⟨rfl, rfl⟩ := Prod.mk.inj heq
    split
    · next heq => exact absurd (Prod.mk.inj heq).1 hnil
    · next heq => exact absurd (Prod.mk.inj heq).1 (hzero _ _)
    · next heq =>
      obtain ⟨rfl, rfl⟩ := Prod.mk.inj heq
      split at hr
      · cases hr
      · next hpoint =>
        rw [takePoint?_append h hpoint]
        simp only
        split at hr
        · cases hr
        · next hexp =>
          rw [takeExponent?_append h hexp]
          obtain rfl := Option.some.inj hr
          rfl

/-- A number begins with a minus sign or a digit. -/
theorem takeNumeral?_head {c : Char} {cs : List Char} {r : Numeral × List Char}
    (h : takeNumeral? (c :: cs) = some r) : c = '-' ∨ (digitValue? c).isSome = true := by
  by_contra hc
  obtain ⟨hminus, hdigit⟩ := not_or.1 hc
  have htake : takeMinus (c :: cs) = (false, c :: cs) := by
    unfold takeMinus
    split <;> simp_all
  have hdigits : (takeDigits (c :: cs)).1 = [] := by
    simp [takeDigits, hdigit]
  unfold takeNumeral? at h
  simp only [htake] at h
  split at h
  · cases h
  · cases h
  · next hnil _ heq => exact hnil (by rw [← hdigits, heq])

/-- A token that starts with a minus sign or a digit is a number. -/
theorem nextToken?_numeral {c : Char} (h : c = '-' ∨ (digitValue? c).isSome = true)
    {cs : List Char} {r : Numeral × List Char} (hr : takeNumeral? (c :: cs) = some r) :
    nextToken? (c :: cs) = some (.number r.1.value?, r.2) := by
  have hne (d : Char) (hd : (d ≠ '-' ∧ digitValue? d = none)) : c ≠ d := by
    rintro rfl
    rcases h with rfl | h
    · exact hd.1 rfl
    · rw [hd.2] at h
      cases h
  unfold nextToken?
  split
  case h_11 => rw [hr]
  all_goals
    next heq => exact absurd (List.cons.inj heq).1 (hne _ (by decide))

/-- The text of a number denotes it. -/
def Number.ReadsBack (n : Number) : Prop :=
  nextToken? n.text.toList = some (.number (some n), [])

/-- The text of a number that reads back is a numeral that denotes it. -/
theorem Number.ReadsBack.exists_numeral {n : Number} (h : n.ReadsBack) :
    ∃ c cs numeral, n.text.toList = c :: cs ∧ (c = '-' ∨ (digitValue? c).isSome = true) ∧
      takeNumeral? (c :: cs) = some (numeral, []) ∧ numeral.value? = some n := by
  unfold Number.ReadsBack nextToken? at h
  split at h
  case h_10 => split at h <;> cases h
  case h_11 =>
    split at h
    · cases h
    · next numeral after hnumeral =>
      obtain ⟨hvalue, rfl⟩ := Prod.mk.inj (Option.some.inj h)
      cases hcs : n.text.toList with
      | nil =>
        rw [hcs] at hnumeral
        cases hnumeral
      | cons c cs =>
        rw [hcs] at hnumeral
        exact ⟨c, cs, numeral, rfl, takeNumeral?_head hnumeral, hnumeral, Token.number.inj hvalue⟩
  all_goals cases h

/-- A number that reads back is one token. -/
theorem nextToken?_number {n : Number} (h : n.ReadsBack) {rest : List Char}
    (hrest : EndsNumber rest) :
    nextToken? (n.text.toList ++ rest) = some (.number (some n), rest) := by
  obtain ⟨c, cs, numeral, htext, hhead, hnumeral, hvalue⟩ := h.exists_numeral
  have happend := takeNumeral?_append hrest hnumeral
  rw [htext]
  rw [List.cons_append] at happend ⊢
  rw [nextToken?_numeral hhead happend, hvalue]
  rfl

/-! ## Integers -/

/-- The values of the digits of a number. -/
def digitValues (n : Nat) : List Nat := (natDigits n).filterMap digitValue?

theorem digitValues_lt_ten {n : Nat} (h : n < 10) : digitValues n = [n] := by
  rw [digitValues, natDigits, if_pos h]
  simp [digitValue?_digitChar, Nat.mod_eq_of_lt h]

theorem digitValues_of_ten_le {n : Nat} (h : ¬ n < 10) :
    digitValues n = digitValues (n / 10) ++ [n % 10] := by
  rw [digitValues, natDigits, if_neg h, List.filterMap_append]
  simp [digitValues, digitValue?_digitChar]

/-- There are no leading zeros. -/
theorem head_digitValues {n : Nat} (h : 0 < n) : ∃ d ds, digitValues n = (d + 1) :: ds := by
  induction n using natDigits.induct with
  | case1 n hn => exact ⟨n - 1, [], by rw [digitValues_lt_ten hn]; congr 1; omega⟩
  | case2 n hn ih =>
    obtain ⟨d, ds, hds⟩ := ih (by omega)
    exact ⟨d, ds ++ [n % 10], by rw [digitValues_of_ten_le hn, hds, List.cons_append]⟩

/-- One more digit is taken as long as the significand has room for it. -/
theorem takeWhole_append {acc value d : Nat} {ds : List Nat} (h : takeWhole acc ds = (value, 0))
    (hd : value * 10 + d ≤ maxSignificand) : takeWhole acc (ds ++ [d]) = (value * 10 + d, 0) := by
  induction ds generalizing acc with
  | nil =>
    obtain rfl : acc = value := congrArg Prod.fst h
    rw [List.nil_append, takeWhole, if_pos hd]
    rfl
  | cons d' ds ih =>
    rw [takeWhole] at h
    split at h
    · next hle =>
      rw [List.cons_append, takeWhole, if_pos hle]
      exact ih h
    · cases h

theorem takeWhole_digitValues {n : Nat} (h : n ≤ maxSignificand) :
    takeWhole 0 (digitValues n) = (n, 0) := by
  induction n using natDigits.induct with
  | case1 n hn =>
    rw [digitValues_lt_ten hn, takeWhole, if_pos (by omega)]
    simp [takeWhole]
  | case2 n hn ih =>
    have hsplit : n / 10 * 10 + n % 10 = n := by omega
    rw [digitValues_of_ten_le hn, takeWhole_append (ih (by omega)) (by omega), hsplit]

theorem isSome_digitValue?_of_mem {n : Nat} {c : Char} (h : c ∈ natDigits n) :
    (digitValue? c).isSome = true := by
  induction n using natDigits.induct with
  | case1 n hn =>
    rw [natDigits, if_pos hn] at h
    rw [List.mem_singleton.1 h, digitValue?_digitChar]
    rfl
  | case2 n hn ih =>
    rw [natDigits, if_neg hn] at h
    rcases List.mem_append.1 h with h | h
    · exact ih h
    · rw [List.mem_singleton.1 h, digitValue?_digitChar]
      rfl

theorem takeDigits_natDigits (n : Nat) : takeDigits (natDigits n) = (digitValues n, []) := by
  have hall : ∀ c ∈ natDigits n, (digitValue? c).isSome = true :=
    fun c hc => isSome_digitValue?_of_mem hc
  rw [takeDigits, List.takeWhile_eq_self_iff.2 hall, List.dropWhile_eq_nil_iff.2 hall]
  rfl

theorem takeMinus_natDigits (n : Nat) : takeMinus (natDigits n) = (false, natDigits n) := by
  unfold takeMinus
  split
  · next heq =>
    have := isSome_digitValue?_of_mem (n := n) (c := '-') (by rw [heq]; exact List.mem_cons_self)
    cases this
  · rfl

/-- The numeral of the digits of a number, with a minus sign or without. -/
theorem takeNumeral?_digits (minus : List Char) {negative : Bool} {n : Nat}
    (h : takeMinus (minus ++ natDigits n) = (negative, natDigits n)) :
    takeNumeral? (minus ++ natDigits n) = some (⟨negative, digitValues n, [], none⟩, []) := by
  -- a zero may only stand alone
  have hzero : ∀ head tail, digitValues n ≠ 0 :: head :: tail := by
    intro head tail heq
    by_cases hn : n < 10
    · rw [digitValues_lt_ten hn] at heq
      cases heq
    · obtain ⟨d, ds, hds⟩ := head_digitValues (n := n) (by omega)
      rw [hds] at heq
      cases heq
  have hnil : digitValues n ≠ [] := by
    rcases Nat.eq_zero_or_pos n with rfl | hn
    · simp [digitValues_lt_ten]
    · obtain ⟨d, ds, hds⟩ := head_digitValues hn
      simp [hds]
  unfold takeNumeral?
  simp only [h, takeDigits_natDigits]
  rcases hds : digitValues n with _ | ⟨_ | d, _ | ⟨d', ds⟩⟩
  · exact absurd hds hnil
  · rfl
  · exact absurd hds (hzero _ _)
  · rfl
  · rfl

/-- A numeral without point and exponent denotes an integer. -/
theorem value?_integer {n : Int} (h : minInteger ≤ n ∧ n ≤ maxInteger) :
    (⟨decide (n < 0), digitValues n.natAbs, [], none⟩ : Numeral).value? = some (.integer n h) := by
  have hmax : n.natAbs ≤ maxSignificand := by
    have hlow : minInteger = -9223372036854775808 := rfl
    have hhigh : maxInteger = 18446744073709551615 := rfl
    have hsignificand : maxSignificand = 18446744073709551615 := rfl
    omega
  have hsigned : (if decide (n < 0) = true then -(n.natAbs : Int) else n.natAbs) = n := by
    split
    · next hn =>
      have := of_decide_eq_true hn
      omega
    · next hn =>
      have : ¬ n < 0 := fun hlt => hn (decide_eq_true hlt)
      omega
  have hzero : ¬ (decide (n < 0) = true ∧ n.natAbs = 0) := by
    rintro ⟨hn, h0⟩
    have := of_decide_eq_true hn
    omega
  unfold Numeral.value?
  simp only [takeWhole_digitValues hmax, hsigned]
  rw [dif_pos ⟨rfl, hzero, h.1, h.2⟩]

/-- Integers are read back. -/
theorem Number.readsBack_integer (n : Int) (h : minInteger ≤ n ∧ n ≤ maxInteger) :
    (Number.integer n h).ReadsBack := by
  have hfirst : ∃ c cs, (intText n).toList = c :: cs ∧
      takeNumeral? (c :: cs) = some (⟨decide (n < 0), digitValues n.natAbs, [], none⟩, []) := by
    by_cases hn : n < 0
    · refine ⟨'-', natDigits n.natAbs, by simp [intText, hn], ?_⟩
      rw [decide_eq_true hn]
      exact takeNumeral?_digits ['-'] rfl
    · have htext : (intText n).toList = natDigits n.natAbs := by simp [intText, hn, natText]
      have hnumeral := takeNumeral?_digits [] (takeMinus_natDigits n.natAbs)
      rw [decide_eq_false hn, htext]
      cases hds : natDigits n.natAbs with
      | nil =>
        rw [List.nil_append, hds] at hnumeral
        cases hnumeral
      | cons c cs => exact ⟨c, cs, rfl, by rw [← hds]; exact hnumeral⟩
  obtain ⟨c, cs, htext, hnumeral⟩ := hfirst
  unfold ReadsBack
  rw [show (Number.integer n h).text.toList = c :: cs from htext,
    nextToken?_numeral (takeNumeral?_head hnumeral) hnumeral, value?_integer h]

end WorkflowRules.Json
