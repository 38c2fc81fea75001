import Mathlib.Data.List.Forall2
import WorkflowRules.Proofs.Json.Ordered
import WorkflowRules.Proofs.Json.Readers
import WorkflowRules.Proofs.Number.Nearest

/-!
# Values of the same shape

Two values correspond when they are built alike: arrays have as many items, objects the same names,
and the numbers at corresponding places stand in a given relation. Nothing is said of the order in
which the fields of an object are listed.

* `Json.Corresponds` — values of the same shape, with related numbers
* `Json.Fields.keywise_iff` — objects in order are compared field by field
* `Json.same_iff` — equality is correspondence with numbers of one kind and one value
-/

namespace WorkflowRules.Json

/-! ## Numbers -/

/-- Whether a number is written as an integer. -/
def Number.isInteger : Number → Bool
  | .integer .. => true
  | .float _ => false

/-- The number that is denoted. -/
def Number.value : Number → Rat
  | .integer n _ => n
  | .float x => x.value

/-- Numbers are the same when they have one kind and denote one number. -/
theorem Number.same_iff {m n : Number} :
    m.same n = true ↔ m.isInteger = n.isInteger ∧ m.value = n.value := by
  cases m <;> cases n <;> simp [same, isInteger, value, Number.Binary64.value_eq_iff]

/-! ## Objects -/

namespace Fields

variable {R : Json → Json → Prop} {fs gs : Fields}

/-- A name that gives nothing is not the name of a field. -/
theorem get?_eq_none_iff {name : String} : fs.get? name = none ↔ name ∉ fs.map (·.1) := by
  refine ⟨fun h hmem => ?_, get?_eq_none⟩
  induction fs with
  | nil => cases hmem
  | cons first rest ih =>
    rw [get?] at h
    split at h
    · cases h
    · next hne => exact ih h ((List.mem_cons.1 hmem).resolve_left (Ne.symm hne))

theorem isSome_get?_iff {name : String} : (fs.get? name).isSome = true ↔ name ∈ fs.map (·.1) := by
  rw [Option.isSome_iff_ne_none, ne_eq, get?_eq_none_iff, not_not]

/-- The same names are given, and what is given under one name is related. -/
structure Keywise (fs : Fields) (R : Json → Json → Prop) (gs : Fields) : Prop where
  names : ∀ name, (fs.get? name).isSome = (gs.get? name).isSome
  values : ∀ name x y, fs.get? name = some x → gs.get? name = some y → R x y

/-- Fields that are listed alike are given alike. -/
theorem Keywise.of_forall₂ (h : List.Forall₂ (fun f g => f.1 = g.1 ∧ R f.2 g.2) fs gs) :
    Keywise fs R gs := by
  induction h with
  | nil => exact ⟨fun _ => rfl, fun _ _ _ hx => by cases hx⟩
  | @cons f g fs gs hfirst _ ih =>
    obtain ⟨n, x⟩ := f
    obtain ⟨n', y⟩ := g
    obtain ⟨rfl, hR⟩ := hfirst
    constructor
    · intro name
      simp only [get?]
      split
      · rfl
      · exact ih.names name
    · intro name v w hv hw
      simp only [get?] at hv hw
      split at hv
      · next heq =>
        rw [if_pos heq] at hw
        cases hv
        cases hw
        exact hR
      · next hne =>
        rw [if_neg hne] at hw
        exact ih.values name v w hv hw

/-- A name in an ordered object is not before its first one. -/
theorem Ascending.not_lt_first {field : String × Json} {rest : Fields} {name : String}
    (ascending : Ascending (field :: rest)) (h : (get? name (field :: rest)).isSome = true) :
    ¬ name < field.1 := by
  intro hlt
  rcases List.mem_cons.1 (isSome_get?_iff.1 h) with heq | hmem
  · exact String.lt_irrefl _ (heq ▸ hlt)
  · exact String.lt_irrefl _ (String.lt_trans hlt ((List.pairwise_cons.1 ascending).1 name hmem))

theorem Ascending.get?_first_rest {field : String × Json} {rest : Fields}
    (ascending : Ascending (field :: rest)) : rest.get? field.1 = none :=
  get?_eq_none fun hmem => String.lt_irrefl _ ((List.pairwise_cons.1 ascending).1 _ hmem)

/-- Objects in order that give the same names have the same name first. -/
theorem Keywise.first_eq {f g : String × Json} (h : Keywise (f :: fs) R (g :: gs))
    (hfs : Ascending (f :: fs)) (hgs : Ascending (g :: gs)) : f.1 = g.1 := by
  have hg : (get? g.1 (f :: fs)).isSome = true := by
    rw [h.names]
    simp [get?]
  have hf : (get? f.1 (g :: gs)).isSome = true := by
    rw [← h.names]
    simp [get?]
  exact String.le_antisymm (String.not_lt.1 (hfs.not_lt_first hg))
    (String.not_lt.1 (hgs.not_lt_first hf))

/-- Without their first fields, two objects in order still give the same names. -/
theorem Keywise.rest {f g : String × Json} (h : Keywise (f :: fs) R (g :: gs))
    (hfs : Ascending (f :: fs)) (hgs : Ascending (g :: gs)) : Keywise fs R gs := by
  have hfirst := h.first_eq hfs hgs
  constructor
  · intro name
    by_cases hne : f.1 = name
    · subst hne
      rw [hfs.get?_first_rest, hfirst, hgs.get?_first_rest]
    · have hname := h.names name
      rwa [get?, if_neg hne, get?, if_neg (hfirst ▸ hne)] at hname
  · intro name x y hx hy
    by_cases hne : f.1 = name
    · subst hne
      rw [hfs.get?_first_rest] at hx
      cases hx
    · refine h.values name x y ?_ ?_
      · rwa [get?, if_neg hne]
      · rwa [get?, if_neg (hfirst ▸ hne)]

/-- Objects in order that give the same names list them alike. -/
theorem Keywise.forall₂ (h : Keywise fs R gs) (hfs : fs.Ascending) (hgs : gs.Ascending) :
    List.Forall₂ (fun f g => f.1 = g.1 ∧ R f.2 g.2) fs gs := by
  induction fs generalizing gs with
  | nil =>
    cases gs with
    | nil => exact .nil
    | cons g gs =>
      have hname := h.names g.1
      simp [get?] at hname
  | cons f fs ih =>
    cases gs with
    | nil =>
      have hname := h.names f.1
      simp [get?] at hname
    | cons g gs =>
      have hfirst := h.first_eq hfs hgs
      have hrelated : R f.2 g.2 :=
        h.values f.1 _ _ (by simp [get?]) (by simp [get?, hfirst])
      exact .cons ⟨hfirst, hrelated⟩ (ih (h.rest hfs hgs) (List.pairwise_cons.1 hfs).2
        (List.pairwise_cons.1 hgs).2)

/-- To compare objects in order field by field is to compare them name by name. -/
theorem keywise_iff (hfs : fs.Ascending) (hgs : gs.Ascending) :
    Keywise fs R gs ↔ List.Forall₂ (fun f g => f.1 = g.1 ∧ R f.2 g.2) fs gs :=
  ⟨fun h => h.forall₂ hfs hgs, .of_forall₂⟩

end Fields

/-! ## Correspondence -/

/-- Values of the same shape whose numbers at corresponding places are related. -/
inductive Corresponds (R : Number → Number → Prop) : Json → Json → Prop
  | null : Corresponds R .null .null
  | bool (b : Bool) : Corresponds R (.bool b) (.bool b)
  | number {m n : Number} (related : R m n) : Corresponds R (.number m) (.number n)
  | string (s : String) : Corresponds R (.string s) (.string s)
  | array {xs ys : List Json} (length : xs.length = ys.length)
      (items : ∀ i (hx : i < xs.length) (hy : i < ys.length), Corresponds R xs[i] ys[i]) :
      Corresponds R (.array xs) (.array ys)
  | object {fs gs : Fields} (names : ∀ name, (fs.get? name).isSome = (gs.get? name).isSome)
      (values : ∀ name x y, fs.get? name = some x → gs.get? name = some y → Corresponds R x y) :
      Corresponds R (.object fs) (.object gs)

variable {R S : Number → Number → Prop} {a b : Json}

theorem corresponds_null : null.Corresponds R b ↔ .null = b :=
  ⟨fun h => by cases h; rfl, by rintro rfl; exact .null⟩

theorem corresponds_bool {x : Bool} : (bool x).Corresponds R b ↔ .bool x = b :=
  ⟨fun h => by cases h; rfl, by rintro rfl; exact .bool x⟩

theorem corresponds_number {m : Number} :
    (number m).Corresponds R b ↔ ∃ n, .number n = b ∧ R m n := by
  constructor
  · intro h
    cases h with
    | number related => exact ⟨_, rfl, related⟩
  · rintro ⟨n, rfl, related⟩
    exact .number related

theorem corresponds_string {s : String} : (string s).Corresponds R b ↔ .string s = b :=
  ⟨fun h => by cases h; rfl, by rintro rfl; exact .string s⟩

/-- A weaker relation of numbers gives a weaker correspondence. -/
theorem Corresponds.mono (h : a.Corresponds R b) (hRS : ∀ m n, R m n → S m n) :
    a.Corresponds S b := by
  induction h with
  | null => exact .null
  | bool b => exact .bool b
  | number related => exact .number (hRS _ _ related)
  | string s => exact .string s
  | array length _ ih => exact .array length ih
  | object names _ ih => exact .object names ih

theorem Corresponds.swap (h : a.Corresponds R b) : b.Corresponds (fun m n => R n m) a := by
  induction h with
  | null => exact .null
  | bool b => exact .bool b
  | number related => exact .number related
  | string s => exact .string s
  | array length _ ih => exact .array length.symm fun i hx hy => ih i hy hx
  | object names _ ih =>
    exact .object (fun name => (names name).symm) fun name x y hx hy => ih name y x hy hx

/-- A value corresponds to itself if its numbers do. -/
theorem Corresponds.refl (h : ∀ n, R n n) (j : Json) : j.Corresponds R j := by
  induction j using inductionOnParts with
  | null => exact .null
  | bool b => exact .bool b
  | number n => exact .number (h n)
  | string s => exact .string s
  | array items ih => exact .array rfl fun i hi _ => ih _ (List.getElem_mem hi)
  | object fields ih =>
    refine .object (fun _ => rfl) fun name x y hx hy => ?_
    obtain rfl : x = y := Option.some.inj (hx.symm.trans hy)
    exact ih _ (Fields.mem_of_get? hx)

/-- Correspondences are composed as the relations of numbers are. -/
theorem Corresponds.trans {T : Number → Number → Prop} {c : Json} (h : a.Corresponds R b)
    (h' : b.Corresponds S c) (hT : ∀ l m n, R l m → S m n → T l n) : a.Corresponds T c := by
  induction h generalizing c with
  | null =>
    cases h'
    exact .null
  | bool b =>
    cases h'
    exact .bool b
  | number related =>
    cases h' with
    | number related' => exact .number (hT _ _ _ related related')
  | string s =>
    cases h'
    exact .string s
  | array length _ ih =>
    cases h' with
    | array length' items' =>
      exact .array (length.trans length') fun i hx hz =>
        ih i hx (length ▸ hx) (items' i (length ▸ hx) hz)
  | object names _ ih =>
    cases h' with
    | object names' values' =>
      refine .object (fun name => (names name).trans (names' name)) fun name x z hx hz => ?_
      -- the object between the two has the name as well
      have hgiven := names name
      rw [hx] at hgiven
      obtain ⟨y, hy⟩ := Option.isSome_iff_exists.1 hgiven.symm
      exact ih name x y hx hy (values' name y z hy hz)

/-- Every number in a value, at any depth, has a property. -/
inductive Everywhere (P : Number → Prop) : Json → Prop
  | null : Everywhere P .null
  | bool (b : Bool) : Everywhere P (.bool b)
  | number {n : Number} (holds : P n) : Everywhere P (.number n)
  | string (s : String) : Everywhere P (.string s)
  | array {items : List Json} (holds : ∀ v ∈ items, Everywhere P v) : Everywhere P (.array items)
  | object {fields : Fields} (holds : ∀ field ∈ fields, Everywhere P field.2) :
      Everywhere P (.object fields)

/-- A relation of numbers can be read with a property that all numbers of both values have. -/
theorem Corresponds.mono_of_everywhere {P : Number → Prop} (h : a.Corresponds R b)
    (ha : a.Everywhere P) (hb : b.Everywhere P) (hRS : ∀ m n, P m → P n → R m n → S m n) :
    a.Corresponds S b := by
  induction h with
  | null => exact .null
  | bool b => exact .bool b
  | number related =>
    cases ha with
    | number hm =>
      cases hb with
      | number hn => exact .number (hRS _ _ hm hn related)
  | string s => exact .string s
  | array length _ ih =>
    cases ha with
    | array ha =>
      cases hb with
      | array hb =>
        exact .array length fun i hx hy =>
          ih i hx hy (ha _ (List.getElem_mem hx)) (hb _ (List.getElem_mem hy))
  | object names _ ih =>
    cases ha with
    | object ha =>
      cases hb with
      | object hb =>
        exact .object names fun name x y hx hy =>
          ih name x y hx hy (ha _ (Fields.mem_of_get? hx)) (hb _ (Fields.mem_of_get? hy))

/-! ## Equality -/

theorem sameItems_iff {xs ys : List Json} :
    sameItems xs ys = true ↔ List.Forall₂ (fun x y => x.same y = true) xs ys := by
  induction xs generalizing ys with
  | nil => cases ys <;> simp [sameItems]
  | cons x xs ih => cases ys <;> simp [sameItems, ih]

theorem sameFields_iff {fs gs : List (String × Json)} :
    sameFields fs gs = true ↔
      List.Forall₂ (fun f g => f.1 = g.1 ∧ f.2.same g.2 = true) fs gs := by
  induction fs generalizing gs with
  | nil => cases gs <;> simp [sameFields]
  | cons f fs ih => cases gs <;> simp [sameFields, ih]

theorem sameFields_iff_keywise {fs gs : Fields} (hfs : fs.Ascending) (hgs : gs.Ascending) :
    sameFields fs gs = true ↔ fs.Keywise (fun x y => x.same y = true) gs := by
  rw [Fields.keywise_iff (R := fun x y => x.same y = true) hfs hgs]
  exact sameFields_iff

theorem forall₂_same_iff {xs ys : List Json} : List.Forall₂ (fun x y => x.same y = true) xs ys ↔
    xs.length = ys.length ∧
      ∀ i (hx : i < xs.length) (hy : i < ys.length), xs[i].same ys[i] = true := by
  rw [List.forall₂_iff_get]
  simp only [List.get_eq_getElem]

/-- Arrays whose items at corresponding places are equal when they correspond. -/
theorem same_array_iff {xs ys : List Json}
    (items : ∀ i (hx : i < xs.length) (hy : i < ys.length),
      xs[i].same ys[i] = true ↔ xs[i].Corresponds R ys[i]) :
    (array xs).same (array ys) = true ↔ (array xs).Corresponds R (array ys) := by
  constructor
  · intro h
    obtain ⟨length, same⟩ := forall₂_same_iff.1 (sameItems_iff.1 h)
    exact .array length fun i hx hy => (items i hx hy).1 (same i hx hy)
  · intro h
    cases h with
    | array length related =>
      exact sameItems_iff.2 (forall₂_same_iff.2
        ⟨length, fun i hx hy => (items i hx hy).2 (related i hx hy)⟩)

/-- Objects in order whose fields of one name are equal when they correspond. -/
theorem same_object_iff {fs gs : Fields} (hfs : fs.Ascending) (hgs : gs.Ascending)
    (fields : ∀ name x y, fs.get? name = some x → gs.get? name = some y →
      (x.same y = true ↔ x.Corresponds R y)) :
    (object fs).same (object gs) = true ↔ (object fs).Corresponds R (object gs) := by
  constructor
  · intro h
    have hkeywise := (sameFields_iff_keywise hfs hgs).1 h
    exact .object hkeywise.names fun name x y hx hy =>
      (fields name x y hx hy).1 (hkeywise.values name x y hx hy)
  · intro h
    cases h with
    | object names values =>
      exact (sameFields_iff_keywise hfs hgs).2
        ⟨names, fun name x y hx hy => (fields name x y hx hy).2 (values name x y hx hy)⟩

/-- Equality is correspondence of numbers that are the same. -/
theorem same_iff_corresponds (ha : a.Ordered) (hb : b.Ordered) :
    a.same b = true ↔ a.Corresponds (fun m n => m.same n = true) b := by
  -- in each case only a value of the same kind is equal or corresponds
  induction a using inductionOnParts generalizing b with
  | null => cases b <;> simp [same, corresponds_null]
  | bool x => cases b <;> simp [same, corresponds_bool]
  | number m => cases b <;> simp [same, corresponds_number]
  | string s => cases b <;> simp [same, corresponds_string]
  | array xs ih =>
    cases b with
    | array ys =>
      rw [ordered_array] at ha hb
      exact same_array_iff fun i hx hy =>
        ih _ (List.getElem_mem hx) (ha _ (List.getElem_mem hx)) (hb _ (List.getElem_mem hy))
    | _ => exact ⟨nofun, nofun⟩
  | object fs ih =>
    cases b with
    | object gs =>
      obtain ⟨hfs, ha⟩ := ordered_object.1 ha
      obtain ⟨hgs, hb⟩ := ordered_object.1 hb
      refine same_object_iff hfs hgs fun name x y hx hy => ?_
      have hx' := Fields.mem_of_get? hx
      exact ih _ hx' (ha _ hx') (hb _ (Fields.mem_of_get? hy))
    | _ => exact ⟨nofun, nofun⟩

/-- Equality is correspondence of numbers of one kind that denote the same. -/
theorem same_iff (ha : a.Ordered) (hb : b.Ordered) :
    a.same b = true ↔
      a.Corresponds (fun m n => m.isInteger = n.isInteger ∧ m.value = n.value) b := by
  simp only [same_iff_corresponds ha hb, Number.same_iff]

end WorkflowRules.Json
