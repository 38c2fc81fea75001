import Mathlib.Data.List.TakeWhile
import WorkflowRules.Store.Address

/-!
# Addresses as they are written

An address is written as a scheme, a path and parameters. It is read twice: once for the directory that
is to be made, and once for the file that is to be opened. The first reading takes the path as it is
written; the second one takes away further schemes, decodes what is left, and may find a URI in it.

* `Address.Written` — an address made of a scheme, a path and parameters
* `Address.directoryPath?_written` — the path of the first reading
* `Address.Plain` — a path that stands for itself
* `Address.target_name` — of a plain path the second reading makes the same name
-/

namespace WorkflowRules

/-! ## Bytes of texts -/

namespace Text

theorem byteArray_loop (bytes : ByteArray) (i : Nat) (before : List UInt8) :
    ByteArray.toList.loop bytes i before = before.reverse ++ bytes.data.toList.drop i := by
  induction i, before using ByteArray.toList.loop.induct bytes with
  | case1 i before inside ih =>
    have hdrop : bytes.data.toList.drop i = bytes.get! i :: bytes.data.toList.drop (i + 1) := by
      rw [List.drop_eq_getElem_cons (by simpa using inside)]
      simp [ByteArray.get!, inside]
    rw [ByteArray.toList.loop, if_pos inside, ih, hdrop, List.reverse_cons, List.append_assoc]
    rfl
  | case2 i before outside =>
    have hdrop : bytes.data.toList.drop i = [] := List.drop_of_length_le (by simpa using outside)
    rw [ByteArray.toList.loop, if_neg outside, hdrop, List.append_nil]

theorem byteArray_toList (bytes : ByteArray) : bytes.toList = bytes.data.toList :=
  byteArray_loop bytes 0 []

/-- Bytes without a percent sign stand for themselves. -/
theorem percentBytes_of_not_mem {bytes : List UInt8} (h : 0x25 ∉ bytes) :
    percentBytes bytes = bytes := by
  induction bytes with
  | nil => rfl
  | cons b rest ih =>
    rw [List.mem_cons, not_or] at h
    obtain ⟨hb, hrest⟩ := h
    unfold percentBytes
    rw [if_neg (Ne.symm hb), ih hrest]

/-- A text without percent signs stands for itself. -/
theorem percentDecode?_of_not_mem {s : String} (h : 0x25 ∉ utf8Bytes s) :
    percentDecode? s = some s := by
  have hbytes : ByteArray.mk (percentBytes s.toUTF8.toList).toArray = s.toByteArray := by
    rw [show percentBytes s.toUTF8.toList = _ from percentBytes_of_not_mem h, byteArray_toList]
    rfl
  rw [percentDecode?, hbytes, String.fromUTF8?, dif_pos s.isValidUTF8]
  rfl

end Text

namespace Store.Address

open Text (occurs utf8Bytes)

/-! ## Schemes -/

section Schemes

variable {scheme : String} {cs : List Char}

/-- What is no prefix of a text does not become one by what follows behind another character. -/
theorem prefix_append_iff {l ds : List Char} {c : Char} (h : c ∉ l) :
    l <+: cs ++ c :: ds ↔ l <+: cs := by
  refine ⟨fun hl => ?_, fun hl => hl.trans (List.prefix_append _ _)⟩
  rcases List.prefix_or_prefix_of_prefix hl (List.prefix_append cs _) with hshort | ⟨more, rfl⟩
  · exact hshort
  · rcases List.prefix_cons_iff.1 ((List.prefix_append_right_inj cs).1 hl) with rfl | ⟨_, rfl, -⟩
    · simp
    · exact absurd (List.mem_append_right cs List.mem_cons_self) h

theorem afterScheme?_append (scheme : String) (cs : List Char) :
    afterScheme? scheme (scheme.toList ++ cs) = some cs := by
  rw [afterScheme?, if_pos (List.isPrefixOf_iff_prefix.2 (List.prefix_append _ _)), List.drop_left]

theorem afterScheme?_eq_none (h : ¬ scheme.toList <+: cs) : afterScheme? scheme cs = none := by
  rw [afterScheme?, if_neg fun hp => h (List.isPrefixOf_iff_prefix.1 hp)]

theorem withoutScheme_of_not_prefix (h : ¬ scheme.toList <+: cs) (n : Nat) :
    withoutScheme scheme n cs = cs := by
  cases n with
  | zero => rfl
  | succ n => rw [withoutScheme, afterScheme?_eq_none h]

/-- One scheme is taken away when no other one follows. -/
theorem withoutScheme_append (h : ¬ scheme.toList <+: cs) (n : Nat) :
    withoutScheme scheme (n + 1) (scheme.toList ++ cs) = cs := by
  rw [withoutScheme, afterScheme?_append]
  exact withoutScheme_of_not_prefix h n

end Schemes

/-! ## Addresses -/

/-- Parameters behind a path, with their question mark. -/
def queryText : Option String → String
  | none => ""
  | some query => "?" ++ query

/--
An address made of a scheme, a path and parameters. Two slashes behind the short scheme make it the
long one.
-/
structure Written (url path : String) (query : Option String) : Prop where
  scheme : url = longScheme ++ path ++ queryText query ∨
    url = shortScheme ++ path ++ queryText query ∧ ¬ "//".toList <+: path.toList
  question : '?' ∉ path.toList

variable {url path : String} {query : Option String}

/-- Without a question mark in it, a text is the beginning of an address when it is that of the path. -/
theorem prefix_written {l : List Char} (h : '?' ∉ l) (query : Option String) :
    l <+: path.toList ++ (queryText query).toList ↔ l <+: path.toList := by
  cases query with
  | none =>
    rw [queryText]
    simp
  | some query =>
    rw [queryText, String.toList_append]
    exact prefix_append_iff h

/-- An address without a question mark in its path is split where its query begins. -/
theorem splitQuery_written (h : '?' ∉ path.toList) :
    splitQuery (path.toList ++ (queryText query).toList) = (path, query) := by
  have hpath : ∀ c ∈ path.toList, decide (c ≠ '?') = true := fun c hc =>
    decide_eq_true fun heq => h (heq ▸ hc)
  cases query with
  | none =>
    have hdrop : path.toList.dropWhile (· ≠ '?') = [] := List.dropWhile_eq_nil_iff.2 hpath
    rw [queryText, String.toList_empty, List.append_nil, splitQuery, hdrop]
    simp
  | some query =>
    have hdrop : (path.toList ++ '?' :: query.toList).dropWhile (· ≠ '?') = '?' :: query.toList := by
      rw [List.dropWhile_append_of_pos hpath]
      rfl
    have htake : (path.toList ++ '?' :: query.toList).takeWhile (· ≠ '?') = path.toList := by
      rw [List.takeWhile_append_of_pos hpath]
      simp
    have hquery : (queryText (some query)).toList = '?' :: query.toList := by
      rw [queryText, String.toList_append]
      rfl
    rw [hquery, splitQuery, hdrop, htake]
    simp

theorem toList_written {scheme : String} (h : url = scheme ++ path ++ queryText query) :
    url.toList = scheme.toList ++ (path.toList ++ (queryText query).toList) := by
  rw [h, String.toList_append, String.toList_append, List.append_assoc]

/-- Behind the short scheme, the long one is made up by two slashes. -/
theorem not_long_of_short (h : ¬ "//".toList <+: path.toList) (query : Option String) :
    ¬ longScheme.toList <+: shortScheme.toList ++ (path.toList ++ (queryText query).toList) := by
  have hscheme : longScheme.toList = shortScheme.toList ++ "//".toList := by decide
  rwa [hscheme, List.prefix_append_right_inj, prefix_written (by decide)]

/-- The path whose directory is made is the path as it is written. -/
theorem directoryPath?_written (h : Written url path query) :
    directoryPath? url =
      if path = "" ∨ occurs ":memory:".toList path.toList = true then none else some path := by
  have hrest : ((afterScheme? longScheme url.toList).orElse fun _ =>
      afterScheme? shortScheme url.toList) = some (path.toList ++ (queryText query).toList) := by
    rcases h.scheme with hlong | ⟨hshort, hslashes⟩
    · rw [toList_written hlong, afterScheme?_append]
      rfl
    · rw [toList_written hshort, afterScheme?_eq_none (not_long_of_short hslashes query),
        afterScheme?_append]
      rfl
  rw [directoryPath?, hrest]
  simp only [Option.bind_eq_bind, Option.bind_some, splitQuery_written h.question]

/-! ## Plain paths -/

/-- A path that stands for itself: no part of it is decoded, taken away or read as anything else. -/
structure Plain (path : String) : Prop where
  encoding : 0x25 ∉ utf8Bytes path
  zero : 0 ∉ utf8Bytes path
  scheme : ¬ shortScheme.toList <+: path.toList
  uri : (utf8Bytes "file:").isPrefixOf (utf8Bytes path) = false
  memory : occurs ":memory:".toList path.toList = false

/-- Without scheme and its slashes, path and query are left. -/
theorem body_written (h : Written url path query) (plain : Plain path) :
    body url = path.toList ++ (queryText query).toList := by
  have hshort : ¬ shortScheme.toList <+: path.toList ++ (queryText query).toList :=
    mt (prefix_written (by decide) query).1 plain.scheme
  have hlong : ¬ longScheme.toList <+: path.toList ++ (queryText query).toList :=
    mt (List.IsPrefix.trans (by decide)) hshort
  rcases h.scheme with hurl | ⟨hurl, hslashes⟩
  · have hlength : url.toList.length = (url.toList.length - 1) + 1 := by
      rw [toList_written hurl]
      simp [longScheme]
    rw [body, hlength, toList_written hurl, withoutScheme_append hlong]
    exact withoutScheme_of_not_prefix hshort _
  · have hlength : url.toList.length = (url.toList.length - 1) + 1 := by
      rw [toList_written hurl]
      simp [shortScheme]
    rw [body, hlength, toList_written hurl,
      withoutScheme_of_not_prefix (not_long_of_short hslashes query), withoutScheme_append hshort]

/-- A parameter does not change the path. -/
theorem withParameter?_path {a b : Address} {name value : String}
    (h : a.withParameter? name value = some b) : b.path = a.path := by
  have hread : a.readOnly.path = a.path := by
    unfold readOnly
    split <;> rfl
  unfold withParameter? at h
  split_ifs at h <;> cases h <;> first | rfl | exact hread

theorem withParameters?_path {a b : Address} {parameters : List (String × String)}
    (h : a.withParameters? parameters = some b) : b.path = a.path := by
  induction parameters generalizing a with
  | nil => exact Option.some.inj h ▸ rfl
  | cons p rest ih =>
    obtain ⟨c, hc, hrest⟩ := Option.bind_eq_some_iff.1 h
    exact (ih hrest).trans (withParameter?_path hc)

theorem occurs_self {pattern : List Char} : occurs pattern pattern = true := by
  cases pattern with
  | nil => rfl
  | cons c rest => simp [occurs]

/-- An address with a plain path that is accepted has that path. -/
theorem path_of_plain (h : Written url path query) (plain : Plain path) {a : Address}
    (accepted : parse? url = some a) : a.path = path := by
  have hpath : path ≠ ":memory:" := by
    rintro rfl
    exact Bool.noConfusion (plain.memory.symm.trans occurs_self)
  rw [parse?, body_written h plain, splitQuery_written h.question] at accepted
  simp only [if_neg hpath, Text.percentDecode?_of_not_mem plain.encoding, Option.map_some,
    Option.bind_eq_bind, Option.bind_some] at accepted
  cases query with
  | none => exact Option.some.inj accepted ▸ rfl
  | some query => exact withParameters?_path accepted

/-- A plain path is the name that is opened. -/
theorem target_name (h : Written url path query) (plain : Plain path) {t : Target}
    (accepted : (parse? url).bind target? = some t) : t.name = utf8Bytes path := by
  obtain ⟨a, ha, ht⟩ := Option.bind_eq_some_iff.1 accepted
  have hzero : (utf8Bytes path).contains 0 = false := by simpa using plain.zero
  have htake : (utf8Bytes path).takeWhile (· ≠ 0) = utf8Bytes path :=
    List.takeWhile_eq_self_iff.2 fun b hb => decide_eq_true fun heq => plain.zero (heq ▸ hb)
  unfold target? at ht
  simp only [path_of_plain h plain ha, hzero, plain.uri, htake] at ht
  split at ht
  · exact Option.some.inj ht ▸ rfl
  · exact Option.some.inj ht ▸ rfl

end Store.Address

end WorkflowRules
