import WorkflowRules.Proofs.Text.Digits
import WorkflowRules.Proofs.Time.Calendar
import WorkflowRules.Time.Rfc3339

/-!
# Timestamps read back

A timestamp that was written to a column is read as the same moment, if its year has four digits and
it is not a leap second.

* `Timestamp.IsPlain` — these timestamps
* `Timestamp.read_columnText` — what was written is read
-/

namespace WorkflowRules.Timestamp

open Text (padded digitsFrom digitsFrom_padded length_padded digitValue?)
open Time (Date isFourDigitDay)

/-! ## Parts of a text -/

/-- After one part has been read, the next one goes on with what is left. -/
theorem Part.bind_ok {α β : Type} {x : Part α} {f : α → Part β} {cs rest : List Char} {a : α}
    (h : x cs = .ok (a, rest)) : (x >>= f) cs = f a rest := by
  show (x cs >>= fun r => f r.1 r.2) = _
  rw [h]
  rfl

/-- Digits are taken one by one as long as there is room for them. -/
theorem digitsUpTo_append {acc value : Nat} {ds : List Char} (seen max : Nat) (rest : List Char)
    (h : digitsFrom acc ds = some value) (hlen : ds.length ≤ max) :
    digitsUpTo acc seen max (ds ++ rest) =
      digitsUpTo value (seen + ds.length) (max - ds.length) rest := by
  induction ds generalizing acc seen max with
  | nil =>
    cases h
    rfl
  | cons c ds ih =>
    obtain ⟨m, rfl⟩ := Nat.exists_eq_succ_of_ne_zero (show max ≠ 0 by
      rw [List.length_cons] at hlen
      omega)
    rw [List.length_cons] at hlen
    rw [digitsFrom] at h
    rw [List.cons_append, digitsUpTo]
    cases hd : digitValue? c with
    | none => rw [hd] at h; cases h
    | some d =>
      rw [hd] at h
      simp only
      rw [ih _ _ h (by omega), List.length_cons, Nat.succ_sub_succ]
      congr 1
      omega

/-- A number that was padded to a width is read back. -/
theorem digits_padded {width n : Nat} (hw : 0 < width) (h : n < 10 ^ width) (rest : List Char) :
    digits width (padded width n ++ rest) = .ok (n, rest) := by
  have hread := digitsUpTo_append 0 width rest (digitsFrom_padded width n)
    (length_padded hw h).le
  rw [length_padded hw h, Nat.sub_self, Nat.zero_add] at hread
  unfold digits
  rw [hread]
  simp [digitsUpTo]

theorem literal_cons (c : Char) (rest : List Char) : literal c (c :: rest) = .ok ((), rest) := by
  simp [literal]

theorem separator_cons (rest : List Char) : dateTimeSeparator ('T' :: rest) = .ok ((), rest) := by
  rfl

theorem get_apply (cs : List Char) : (get : Part (List Char)) cs = .ok (cs, cs) := rfl

/-- A fraction of a fixed number of digits, followed by the sign of an offset. -/
theorem fraction_padded (width n : Nat) (hw : 0 < width) (hw' : width ≤ 9) (h : n < 10 ^ width)
    (rest : List Char) :
    fraction ('.' :: (padded width n ++ '+' :: rest)) =
      .ok (n * 10 ^ (9 - width), '+' :: rest) := by
  have hread := digitsUpTo_append 0 9 ('+' :: rest) (digitsFrom_padded width n)
    ((length_padded hw h).le.trans hw')
  rw [length_padded hw h, Nat.zero_add] at hread
  have hstop : digitsUpTo n width (9 - width) ('+' :: rest) = (n, width, '+' :: rest) := by
    cases 9 - width with
    | zero => rfl
    | succ m => rfl
  simp only [fraction, hread, hstop]
  rw [if_neg (Nat.ne_of_gt hw)]
  rfl

/-- A fraction of a second is read back, whatever the number of its digits. -/
theorem fraction_fractionText {nanos : Nat} (h : nanos < 10 ^ 9) (rest : List Char) :
    fraction (fractionText nanos ++ '+' :: rest) = .ok (nanos, '+' :: rest) := by
  unfold fractionText
  split
  · next h₀ =>
    subst h₀
    rfl
  · -- three, six or nine digits are written, and the reader fills them up to nine
    split
    · next h₁ =>
      have := fraction_padded 3 (nanos / 1000000) (by decide) (by decide)
        (by omega) rest
      rw [List.cons_append, this]
      congr 2
      omega
    · split
      · next h₂ =>
        have := fraction_padded 6 (nanos / 1000) (by decide) (by decide)
          (by omega) rest
        rw [List.cons_append, this]
        congr 2
        omega
      · have := fraction_padded 9 nanos (by decide) (by decide) h rest
        rw [List.cons_append, this]
        congr 2
        omega

theorem offset_greenwich : offset (literal ':') ['+', '0', '0', ':', '0', '0'] = .ok (0, []) := by
  rfl

theorem length_le_utf8Size (cs : List Char) :
    cs.length ≤ (cs.map Char.utf8Size).foldr (· + ·) 0 := by
  induction cs with
  | nil => simp
  | cons c rest ih =>
    have := c.utf8Size_pos
    simp only [List.length_cons, List.map_cons, List.foldr_cons]
    omega

/-! ## Whole texts -/

/-- The text of a date and a time at Greenwich. -/
def plainText (date : Date) (hour minute second nanos : Nat) : List Char :=
  padded 4 date.year.toNat ++ '-' :: (padded 2 date.month ++ '-' :: (padded 2 date.day ++
    'T' :: (padded 2 hour ++ ':' :: (padded 2 minute ++ ':' :: (padded 2 second ++
      (fractionText nanos ++ ['+', '0', '0', ':', '0', '0']))))))

/-- A date of a year with four digits, of which every field fits its digits. -/
theorem digits_of_exists {date : Date} (h : date.exists = true) (hy₀ : 0 ≤ date.year)
    (hy₁ : date.year ≤ 9999) :
    date.year.toNat < 10 ^ 4 ∧ date.month < 10 ^ 2 ∧ date.day < 10 ^ 2 := by
  simp only [Date.exists, Bool.and_eq_true, decide_eq_true_eq] at h
  obtain ⟨⟨⟨-, hmonth⟩, -⟩, hday⟩ := h
  have hdays : Time.daysInMonth date.year date.month ≤ 31 := by
    unfold Time.daysInMonth
    split
    · split <;> omega
    · split <;> omega
  refine ⟨?_, ?_, ?_⟩ <;> omega

/-- A text of too few bytes is refused before it is read; these have enough. -/
theorem leastBytes_le_plainText {date : Date} {hour minute second nanos : Nat}
    (hyear : date.year.toNat < 10 ^ 4) (hmonth : date.month < 10 ^ 2) (hday : date.day < 10 ^ 2)
    (hh : hour < 24) (hm : minute < 60) (hs : second < 60) :
    leastBytes ≤ ((plainText date hour minute second nanos).map Char.utf8Size).foldr (· + ·) 0 := by
  have h := length_le_utf8Size (plainText date hour minute second nanos)
  have h₄ := length_padded (by decide) hyear
  have h₂ {n : Nat} (hn : n < 10 ^ 2) := @length_padded 2 n (by decide) hn
  simp only [plainText, List.length_append, List.length_cons, h₄, h₂ hmonth, h₂ hday,
    h₂ (show hour < 10 ^ 2 by omega), h₂ (show minute < 10 ^ 2 by omega),
    h₂ (show second < 10 ^ 2 by omega)] at h
  unfold leastBytes
  unfold plainText
  omega

theorem timeExists_of_lt {l : Local} (hh : l.hour < 24) (hm : l.minute < 60) (hs : l.second < 60) :
    l.timeExists = true := by
  simp only [Local.timeExists, Bool.and_eq_true, decide_eq_true_eq]
  omega

/-- A date and a time of day that were written are read back. -/
theorem strict_plainText {date : Date} {hour minute second nanos : Nat}
    (hdate : date.exists = true) (hy₀ : 0 ≤ date.year) (hy₁ : date.year ≤ 9999) (hh : hour < 24)
    (hm : minute < 60) (hs : second < 60) (hn : nanos < 10 ^ 9) :
    strict (plainText date hour minute second nanos) =
      .ok (⟨date, hour, minute, second, nanos, 0⟩, []) := by
  obtain ⟨hyear, hmonth, hday⟩ := digits_of_exists hdate hy₀ hy₁
  have hlength := Nat.not_lt.2 (@leastBytes_le_plainText _ _ _ _ nanos hyear hmonth hday hh hm hs)
  have hthere : (⟨(date.year.toNat : Int), date.month, date.day⟩ : Date) = date := by
    rw [Int.toNat_of_nonneg hy₀]
  have htime : (⟨date, hour, minute, second, nanos, 0⟩ : Local).timeExists = true :=
    timeExists_of_lt hh hm hs
  unfold strict
  rw [Part.bind_ok (get_apply _)]
  simp only [if_neg hlength]
  rw [plainText, Part.bind_ok (digits_padded (by decide) hyear _), Part.bind_ok (literal_cons _ _),
    Part.bind_ok (digits_padded (by decide) hmonth _), Part.bind_ok (literal_cons _ _),
    Part.bind_ok (digits_padded (by decide) hday _)]
  simp only [hthere, hdate, Bool.not_true, Bool.false_eq_true, if_false]
  rw [Part.bind_ok (separator_cons _),
    Part.bind_ok (digits_padded (by decide) (by omega) _), Part.bind_ok (literal_cons _ _),
    Part.bind_ok (digits_padded (by decide) (by omega) _), Part.bind_ok (literal_cons _ _),
    Part.bind_ok (digits_padded (by decide) (by omega) _),
    Part.bind_ok (fraction_fractionText hn _)]
  simp only [htime, Bool.not_true, Bool.false_eq_true, if_false]
  rw [Part.bind_ok offset_greenwich]
  rfl

/-- A moment of a year with four digits that is not in a leap second. -/
def IsPlain (t : Timestamp) : Prop := isFourDigitDay (t.seconds / 86400) ∧ t.nanos < 10 ^ 9

/-- The moment of the date of a day and a time of day. -/
theorem ofLocal_ofDays {days : Int} {hour minute second nanos : Nat}
    (hexists : (Date.ofDays days).exists = true) (hh : hour < 24) (hm : minute < 60)
    (hs : second < 60) :
    ofLocal ⟨Date.ofDays days, hour, minute, second, nanos, 0⟩ =
      .ok ⟨days * 86400 + (hour * 3600 + minute * 60 + second), nanos⟩ := by
  have htime : (⟨Date.ofDays days, hour, minute, second, nanos, 0⟩ : Local).timeExists = true :=
    timeExists_of_lt hh hm hs
  have hday : (days * 86400 + ((hour : Int) * 3600 + minute * 60 + second)) / 86400 = days := by
    omega
  have hnot : ¬ second = 60 := by omega
  simp [ofLocal, hexists, htime, hnot, Date.toDays_ofDays, hday]

/-- A column with a plain timestamp is read as the moment that was written. -/
theorem read_columnText {t : Timestamp} (h : t.IsPlain) : read t.columnText = .ok t := by
  obtain ⟨hday, hnanos⟩ := h
  obtain ⟨hy₀, hy₁⟩ := Date.ofDays_year hday
  have hexists : (Date.ofDays (t.seconds / 86400)).exists = true :=
    Date.ofDays_exists (by unfold Time.yearRange; omega) (by unfold Time.yearRange; omega)
  have hleap : t.nanos / 1000000000 = 0 := by omega
  have hwhole : t.nanos % 1000000000 = t.nanos := by omega
  have hsecond : (t.seconds % 86400).toNat < 86400 := by omega
  have hzone : "+00:00".toList = ['+', '0', '0', ':', '0', '0'] := by decide
  have htext : t.columnText.toList =
      plainText (Date.ofDays (t.seconds / 86400)) ((t.seconds % 86400).toNat / 3600)
        ((t.seconds % 86400).toNat / 60 % 60) ((t.seconds % 86400).toNat % 60) t.nanos := by
    simp only [columnText, textWith, yearText, if_pos (And.intro hy₀ hy₁), hleap, Nat.add_zero,
      hwhole, hzone, String.toList_append, String.toList_ofList, plainText, List.append_assoc,
      List.cons_append]
  unfold read
  rw [htext, strict_plainText hexists hy₀ hy₁ (by omega) (by omega) (by omega) hnanos]
  show ofLocal _ = _
  rw [ofLocal_ofDays hexists (by omega) (by omega) (by omega)]
  have hseconds : t.seconds / 86400 * 86400 + ((((t.seconds % 86400).toNat / 3600 : Nat) : Int) * 3600 +
      (((t.seconds % 86400).toNat / 60 % 60 : Nat) : Int) * 60 +
      (((t.seconds % 86400).toNat % 60 : Nat) : Int)) = t.seconds := by omega
  rw [hseconds]

end WorkflowRules.Timestamp
