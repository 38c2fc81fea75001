import Mathlib.Algebra.Order.Ring.Nat
import Mathlib.Tactic.Ring
import WorkflowRules.Text.Digits

/-!
# Digits read back

Digits that were written for a number are read as that number, with or without zeros before them.

* `Text.digitsFrom_natDigits` — the digits of a number, after any digits
* `Text.digitsFrom_padded`, `Text.length_padded` — a number of a fixed width
-/

namespace WorkflowRules.Text

/-- A digit that was written is read as the last digit of the number. -/
theorem digitValue?_digitChar (n : Nat) : digitValue? (digitChar n) = some (n % 10) := by
  have h : ∀ d < 10, digitValue? (Char.ofNat ('0'.toNat + d)) = some d := by decide
  exact h (n % 10) (Nat.mod_lt n (by decide))

/-- Digits are read from left to right, the second part with what the first has given. -/
theorem digitsFrom_append (acc : Nat) (cs ds : List Char) :
    digitsFrom acc (cs ++ ds) = (digitsFrom acc cs).bind (digitsFrom · ds) := by
  induction cs generalizing acc with
  | nil => rfl
  | cons c rest ih =>
    rw [List.cons_append, digitsFrom, digitsFrom]
    cases digitValue? c with
    | none => rfl
    | some d => exact ih _

/-- A number that was written in digits is read back. -/
theorem digitsFrom_natDigits (acc n : Nat) :
    digitsFrom acc (natDigits n) = some (acc * 10 ^ (natDigits n).length + n) := by
  induction n using natDigits.induct generalizing acc with
  | case1 n h =>
    rw [natDigits, if_pos h, digitsFrom, digitValue?_digitChar, Nat.mod_eq_of_lt h]
    simp [digitsFrom, Nat.mul_comm]
  | case2 n h ih =>
    rw [natDigits, if_neg h, digitsFrom_append, ih, Option.bind_some, digitsFrom,
      digitValue?_digitChar]
    simp only [digitsFrom, List.length_append, List.length_singleton, pow_succ, Option.some.injEq]
    have := Nat.div_add_mod n 10
    calc 10 * (acc * 10 ^ (natDigits (n / 10)).length + n / 10) + n % 10
        = acc * (10 ^ (natDigits (n / 10)).length * 10) + (10 * (n / 10) + n % 10) := by ring
      _ = acc * (10 ^ (natDigits (n / 10)).length * 10) + n := by rw [this]

/-- A number below a power of ten has no more digits than its exponent. -/
theorem length_natDigits_le {width n : Nat} (hw : 0 < width) (h : n < 10 ^ width) :
    (natDigits n).length ≤ width := by
  induction n using natDigits.induct generalizing width with
  | case1 n hn =>
    rw [natDigits, if_pos hn]
    exact hw
  | case2 n hn ih =>
    rw [natDigits, if_neg hn, List.length_append, List.length_singleton]
    obtain ⟨w, rfl⟩ := Nat.exists_eq_succ_of_ne_zero (Nat.ne_of_gt hw)
    have hw' : 0 < w := by
      rcases Nat.eq_zero_or_pos w with rfl | hw'
      · omega
      · exact hw'
    have := ih hw' (by rw [Nat.pow_succ] at h; omega)
    omega

/-- A number that fits is padded to the whole width. -/
theorem length_padded {width n : Nat} (hw : 0 < width) (h : n < 10 ^ width) :
    (padded width n).length = width := by
  have := length_natDigits_le hw h
  simp only [padded, List.length_append, List.length_replicate]
  omega

theorem digitsFrom_replicate (count : Nat) : digitsFrom 0 (List.replicate count '0') = some 0 := by
  induction count with
  | zero => rfl
  | succ n ih => exact ih

theorem digitsFrom_padded (width n : Nat) : digitsFrom 0 (padded width n) = some n := by
  rw [padded, digitsFrom_append, digitsFrom_replicate, Option.bind_some, digitsFrom_natDigits]
  simp

end WorkflowRules.Text
