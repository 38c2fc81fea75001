import WorkflowRules.Condition.Evaluate
import WorkflowRules.Proofs.Json.Equality

/-!
# Equality of a field with a value

A field equals a value when both are built alike and their numbers agree. Numbers of one kind agree
when they denote the same number. An integer and a binary64 number meet in binary64, so the integer
is rounded first: below `2 ^ 53` this changes nothing, beyond it neighbouring integers agree with
one binary64 number.

* `Json.Number.compare_eq_iff` — when two numbers compare equal
* `Json.matches_compares_by_value` — which values are equal, at every depth
* `Json.equality_rounds_integers` — two integers that differ and equal the same binary64 number
-/

namespace WorkflowRules.Json

open WorkflowRules.Number (Binary64)

/-! ## Numbers -/

namespace Number

/-- Numbers of one kind agree when they denote the same; an integer and a binary64 number agree
when no binary64 number is nearer to the integer, a tie being even. -/
def Agree : Number → Number → Prop
  | .integer n _, .float x => x.IsNearest n
  | .float x, .integer n _ => x.IsNearest n
  | m, n => m.value = n.value

/-- An integer is compared to others by the binary64 number that is nearest to it. -/
theorem isNearest_toFloat (n : Int) (h : minInteger ≤ n ∧ n ≤ maxInteger) :
    (Number.integer n h).toFloat.IsNearest n := by
  have hbound : n.natAbs ≤ 2 ^ 64 := by
    have hlow : -2 ^ 63 ≤ n := h.1
    have hhigh : n ≤ 2 ^ 64 - 1 := h.2
    omega
  obtain ⟨x, hx⟩ := Binary64.exists_ofInt? hbound
  rw [toFloat, hx]
  exact Binary64.isNearest_of_ofInt? hx

theorem value_eq_toFloat_iff {n : Int} {h : minInteger ≤ n ∧ n ≤ maxInteger} {x : Binary64} :
    x.value = (Number.integer n h).toFloat.value ↔ x.IsNearest n :=
  ⟨(isNearest_toFloat n h).of_value_eq, fun hx => hx.value_eq (isNearest_toFloat n h)⟩

/-- Two numbers compare equal when they agree. -/
theorem compare_eq_iff {m n : Number} : m.compare n = .eq ↔ m.Agree n := by
  have hfloat {x y : Binary64} : x.compare y = .eq ↔ x.value = y.value := by
    rw [Binary64.value_eq_iff, Binary64.compare, Int.compare_eq_eq]
  cases m with
  | integer m hm =>
    cases n with
    | integer n hn => simp [compare, Agree, value]
    | float x => exact hfloat.trans (eq_comm.trans value_eq_toFloat_iff)
  | float x =>
    cases n with
    | integer n hn => exact hfloat.trans value_eq_toFloat_iff
    | float y => exact hfloat

/-- A number that is denoted in binary64 as well. -/
def Representable (m : Number) : Prop := ∃ x : Binary64, x.value = m.value

theorem representable_float (x : Binary64) : (Number.float x).Representable := ⟨x, rfl⟩

theorem representable_of_natAbs_le {n : Int} (h : minInteger ≤ n ∧ n ≤ maxInteger)
    (small : n.natAbs ≤ 2 ^ 53) : (Number.integer n h).Representable :=
  Binary64.exists_value_eq small

/-- Between numbers of one kind nothing is rounded. -/
theorem agree_iff_of_isInteger_eq {m n : Number} (h : m.isInteger = n.isInteger) :
    m.Agree n ↔ m.value = n.value := by
  cases m <;> cases n <;> simp [isInteger] at h <;> rfl

/-- Between representable numbers nothing is rounded. -/
theorem agree_iff_of_representable {m n : Number} (hm : m.Representable) (hn : n.Representable) :
    m.Agree n ↔ m.value = n.value := by
  cases m with
  | integer m h =>
    cases n with
    | integer n h' => rfl
    | float x =>
      obtain ⟨y, hy⟩ := hm
      exact (Binary64.isNearest_iff_of_value_eq hy).trans eq_comm
  | float x =>
    cases n with
    | integer n h =>
      obtain ⟨y, hy⟩ := hn
      exact Binary64.isNearest_iff_of_value_eq hy
    | float y => rfl

theorem Agree.symm {m n : Number} (h : m.Agree n) : n.Agree m := by
  cases m <;> cases n
  · exact Eq.symm h
  · exact h
  · exact h
  · exact Eq.symm h

end Number

/-! ## Values -/

variable {a b c : Json}

/-- The two are not an integer and a binary64 number. -/
def OneKind : Json → Json → Prop
  | .number m, .number n => m.isInteger = n.isInteger
  | _, _ => True

theorem matches_number_iff {m n : Number} :
    (Json.number m).matches (.number n) = true ↔ m.Agree n := by
  rw [Json.matches, beq_iff_eq, Number.compare_eq_iff]

/-- Between values that are not numbers of different kinds, both equalities are one. -/
theorem matches_iff_same (h : a.OneKind b) : a.matches b = true ↔ a.same b = true := by
  cases a with
  | number m =>
    cases b with
    | number n =>
      rw [matches_number_iff, Number.agree_iff_of_isInteger_eq h, same, Number.same_iff]
      exact ⟨fun heq => ⟨h, heq⟩, fun hsame => hsame.2⟩
    | _ => rfl
  | _ => rfl

theorem oneKind_of_same (h : a.same b = true) : a.OneKind b := by
  cases a with
  | number m =>
    cases b with
    | number n => exact (Number.same_iff.1 h).1
    | _ => trivial
  | _ => trivial

theorem matches_of_same (h : a.same b = true) : a.matches b = true :=
  (matches_iff_same (oneKind_of_same h)).2 h

/-- Values that are equal are built alike, and their numbers agree. -/
theorem corresponds_of_matches (ha : a.Ordered) (hb : b.Ordered) (h : a.matches b = true) :
    a.Corresponds Number.Agree b := by
  have hsame (hkind : a.OneKind b) : a.Corresponds Number.Agree b := by
    refine ((same_iff ha hb).1 ((matches_iff_same hkind).1 h)).mono fun m n hmn => ?_
    exact (Number.agree_iff_of_isInteger_eq hmn.1).2 hmn.2
  cases a with
  | number m =>
    cases b with
    | number n => exact .number (matches_number_iff.1 h)
    | _ => exact hsame trivial
  | _ => exact hsame trivial

/-- Values that are built alike, with numbers of one kind that denote the same, are equal. -/
theorem matches_of_corresponds (ha : a.Ordered) (hb : b.Ordered)
    (h : a.Corresponds (fun m n => m.isInteger = n.isInteger ∧ m.value = n.value) b) :
    a.matches b = true :=
  matches_of_same ((same_iff ha hb).2 h)

/-- Arrays are equal item by item, as far as no integer stands beside a binary64 number. -/
theorem matches_array {xs ys : List Json} :
    ((Json.array xs).matches (.array ys) = true → xs.length = ys.length ∧
      ∀ i (hx : i < xs.length) (hy : i < ys.length), xs[i].matches ys[i] = true) ∧
    ((∀ i (hx : i < xs.length) (hy : i < ys.length), xs[i].OneKind ys[i]) →
      xs.length = ys.length →
      (∀ i (hx : i < xs.length) (hy : i < ys.length), xs[i].matches ys[i] = true) →
      (Json.array xs).matches (.array ys) = true) := by
  have hsame : (Json.array xs).matches (.array ys) = true ↔ xs.length = ys.length ∧
      ∀ i (hx : i < xs.length) (hy : i < ys.length), xs[i].same ys[i] = true :=
    sameItems_iff.trans forall₂_same_iff
  rw [hsame]
  constructor
  · rintro ⟨length, items⟩
    exact ⟨length, fun i hx hy => matches_of_same (items i hx hy)⟩
  · intro hkind length items
    exact ⟨length, fun i hx hy => (matches_iff_same (hkind i hx hy)).1 (items i hx hy)⟩

/-- Objects are equal name by name, as far as no integer stands beside a binary64 number. -/
theorem matches_object {fs gs : Fields} (hfs : fs.Ascending) (hgs : gs.Ascending) :
    ((Json.object fs).matches (.object gs) = true →
      fs.Keywise (fun x y => x.matches y = true) gs) ∧
    (fs.Keywise OneKind gs → fs.Keywise (fun x y => x.matches y = true) gs →
      (Json.object fs).matches (.object gs) = true) := by
  have hsame : (Json.object fs).matches (.object gs) = true ↔
      fs.Keywise (fun x y => x.same y = true) gs := sameFields_iff_keywise hfs hgs
  rw [hsame]
  constructor
  · intro h
    exact ⟨h.names, fun name x y hx hy => matches_of_same (h.values name x y hx hy)⟩
  · intro hkind h
    refine ⟨h.names, fun name x y hx hy => ?_⟩
    exact (matches_iff_same (hkind.values name x y hx hy)).1 (h.values name x y hx hy)

theorem matches_refl (ha : a.Ordered) : a.matches a = true :=
  matches_of_corresponds ha ha (.refl (fun _ => ⟨rfl, rfl⟩) a)

/-- Values in order match from either side. -/
theorem matches_symm (ha : a.Ordered) (hb : b.Ordered) (h : a.matches b = true) :
    b.matches a = true := by
  have hsame (hkind : a.OneKind b) : b.matches a = true := by
    have hab := (same_iff ha hb).1 ((matches_iff_same hkind).1 h)
    exact matches_of_corresponds hb ha (hab.swap.mono fun m n hmn => ⟨hmn.1.symm, hmn.2.symm⟩)
  cases a with
  | number m =>
    cases b with
    | number n => exact matches_number_iff.2 (matches_number_iff.1 h).symm
    | _ => exact hsame trivial
  | _ => exact hsame trivial

theorem same_trans (ha : a.Ordered) (hb : b.Ordered) (hc : c.Ordered) (hab : a.same b = true)
    (hbc : b.same c = true) : a.same c = true := by
  rw [same_iff ha hc]
  refine ((same_iff ha hb).1 hab).trans ((same_iff hb hc).1 hbc) fun l m n hlm hmn => ?_
  exact ⟨hlm.1.trans hmn.1, hlm.2.trans hmn.2⟩

/-- Equality can be chained where no number is rounded. -/
theorem matches_trans (ha : a.Ordered) (hb : b.Ordered) (hc : c.Ordered)
    (ra : a.Everywhere Number.Representable) (rb : b.Everywhere Number.Representable)
    (rc : c.Everywhere Number.Representable) (hab : a.matches b = true)
    (hbc : b.matches c = true) : a.matches c = true := by
  cases corresponds_of_matches ha hb hab with
  | number hlm =>
    cases corresponds_of_matches hb hc hbc with
    | number hmn =>
      cases ra with
      | number rl =>
        cases rb with
        | number rm =>
          cases rc with
          | number rn =>
            rw [Number.agree_iff_of_representable rl rm] at hlm
            rw [Number.agree_iff_of_representable rm rn] at hmn
            rw [matches_number_iff, Number.agree_iff_of_representable rl rn, hlm, hmn]
  | _ => exact matches_of_same (same_trans ha hb hc hab hbc)

/--
Equality compares numbers by value, and containers part by part.

Two numbers of one kind are equal exactly when they denote the same number. An integer equals the
binary64 number that is nearest to it; where both numbers are representable in binary64, as all
integers of at most `2 ^ 53` in absolute value are, that is to denote the same number again. Equal
values are built alike with numbers that agree at corresponding places, and conversely as far as no
integer stands beside a binary64 number inside a container.
-/
theorem matches_compares_by_value :
    (∀ m n : Number, (Json.number m).matches (.number n) = true ↔ m.Agree n) ∧
    (∀ m n : Number, m.isInteger = n.isInteger ∨ m.Representable ∧ n.Representable →
      (m.Agree n ↔ m.value = n.value)) ∧
    (∀ x : Binary64, (Number.float x).Representable) ∧
    (∀ n h, n.natAbs ≤ 2 ^ 53 → (Number.integer n h).Representable) ∧
    (∀ a b : Json, a.Ordered → b.Ordered →
      (a.matches b = true → a.Corresponds Number.Agree b) ∧
      (a.Corresponds (fun m n => m.isInteger = n.isInteger ∧ m.value = n.value) b →
        a.matches b = true)) ∧
    (∀ xs ys : List Json,
      ((Json.array xs).matches (.array ys) = true → xs.length = ys.length ∧
        ∀ i (hx : i < xs.length) (hy : i < ys.length), xs[i].matches ys[i] = true) ∧
      ((∀ i (hx : i < xs.length) (hy : i < ys.length), xs[i].OneKind ys[i]) →
        xs.length = ys.length →
        (∀ i (hx : i < xs.length) (hy : i < ys.length), xs[i].matches ys[i] = true) →
        (Json.array xs).matches (.array ys) = true)) ∧
    (∀ fs gs : Fields, fs.Ascending → gs.Ascending →
      ((Json.object fs).matches (.object gs) = true →
        fs.Keywise (fun x y => x.matches y = true) gs) ∧
      (fs.Keywise OneKind gs → fs.Keywise (fun x y => x.matches y = true) gs →
        (Json.object fs).matches (.object gs) = true)) ∧
    (∀ a : Json, a.Ordered → a.matches a = true) ∧
    (∀ a b : Json, a.Ordered → b.Ordered → a.matches b = true → b.matches a = true) ∧
    (∀ a b c : Json, a.Ordered → b.Ordered → c.Ordered →
      a.Everywhere Number.Representable → b.Everywhere Number.Representable →
      c.Everywhere Number.Representable →
      (a.matches b = true → a.Corresponds (fun m n => m.value = n.value) b) ∧
      (a.matches b = true → b.matches c = true → a.matches c = true)) := by
  refine ⟨fun m n => matches_number_iff, ?_, Number.representable_float,
    fun n h => Number.representable_of_natAbs_le h, ?_, fun xs ys => matches_array,
    fun fs gs => matches_object, fun a => matches_refl, fun a b => matches_symm, ?_⟩
  · rintro m n (hkind | ⟨hm, hn⟩)
    · exact Number.agree_iff_of_isInteger_eq hkind
    · exact Number.agree_iff_of_representable hm hn
  · intro a b ha hb
    exact ⟨corresponds_of_matches ha hb, matches_of_corresponds ha hb⟩
  · intro a b c ha hb hc ra rb rc
    constructor
    · intro hab
      refine (corresponds_of_matches ha hb hab).mono_of_everywhere ra rb fun m n hm hn hmn => ?_
      exact (Number.agree_iff_of_representable hm hn).1 hmn
    · exact matches_trans ha hb hc ra rb rc

/-- An order with a list of items, an integer and a binary64 number. -/
def sampleOrder : Json := .object
  [("items", .array [.string "tea", .number (.integer 2 (by decide))]),
    ("total", .number (.float ⟨false, 1023 * 2 ^ 52, by decide⟩))]

/-- An order equals itself, its total of `1.0` equals `1`, and equality passes through it. -/
theorem sampleOrder_matches :
    (sampleOrder.Ordered ∧ sampleOrder.Corresponds
      (fun m n => m.isInteger = n.isInteger ∧ m.value = n.value) sampleOrder ∧
      sampleOrder.matches sampleOrder = true) ∧
    ∃ one : Number, one.isInteger = false ∧ (1 : Int).natAbs ≤ 2 ^ 53 ∧
      (Json.number (.integer 1 (by decide))).matches (.number one) = true ∧
      (Json.number one).matches (.number (.integer 1 (by decide))) = true ∧
      (Json.number (.integer 1 (by decide))).matches (.number (.integer 1 (by decide))) = true := by
  obtain ⟨hnumbers, hvalue, hfloats, hsmall, hvalues, -, -, -, hsymm, htrans⟩ :=
    matches_compares_by_value
  have ascending : "items" < "total" := by decide
  have hordered : sampleOrder.Ordered := by
    refine ordered_object.2 ⟨List.pairwise_pair.2 ascending, ?_⟩
    simp
  have hcorresponds : sampleOrder.Corresponds
      (fun m n => m.isInteger = n.isInteger ∧ m.value = n.value) sampleOrder :=
    .refl (fun _ => ⟨rfl, rfl⟩) sampleOrder
  refine ⟨⟨hordered, hcorresponds, (hvalues _ _ hordered hordered).2 hcorresponds⟩,
    .float ⟨false, 1023 * 2 ^ 52, by decide⟩, rfl, by decide, ?_⟩
  have hint : (Number.integer 1 (by decide)).Representable := hsmall 1 _ (by decide)
  have hfloat : (Number.float ⟨false, 1023 * 2 ^ 52, by decide⟩).Representable := hfloats _
  have hone : (Number.float ⟨false, 1023 * 2 ^ 52, by decide⟩).value = (1 : Int) :=
    Binary64.value_eq_intCast_iff.2 (by decide +kernel)
  have hmatches := (hnumbers _ _).2 ((hvalue _ _ (.inr ⟨hint, hfloat⟩)).2 hone.symm)
  have hback := hsymm _ _ (ordered_number _) (ordered_number _) hmatches
  exact ⟨hmatches, hback, (htrans _ _ _ (ordered_number _) (ordered_number _) (ordered_number _)
    (.number hint) (.number hfloat) (.number hint)).2 hmatches hback⟩

/-- `2 ^ 53` in binary64. -/
def Number.firstInexact : Number := .float ⟨false, 1076 * 2 ^ 52, by decide⟩

/-- The integers `2 ^ 53` and `2 ^ 53 + 1` both equal the binary64 number `2 ^ 53`, but not each
other: beyond `2 ^ 53` equality is not that of the numbers, and it cannot be chained. -/
theorem equality_rounds_integers :
    (Json.number (.integer 9007199254740993 (by decide))).matches
        (.number Number.firstInexact) = true ∧
      ¬ (Json.number (.integer 9007199254740993 (by decide))).Corresponds
        (fun m n => m.value = n.value) (.number Number.firstInexact) ∧
      (Json.number Number.firstInexact).matches
        (.number (.integer 9007199254740992 (by decide))) = true ∧
      (Json.number (.integer 9007199254740993 (by decide))).matches
        (.number (.integer 9007199254740992 (by decide))) = false := by
  refine ⟨by decide +kernel, fun h => ?_, by decide +kernel, by decide +kernel⟩
  cases h with
  | number related =>
    have hfloat : Number.firstInexact.value = (9007199254740992 : Int) :=
      Binary64.value_eq_intCast_iff.2 (by decide +kernel)
    rw [hfloat, Number.value, Int.cast_inj] at related
    exact absurd related (by decide)

end WorkflowRules.Json
