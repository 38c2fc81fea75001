import WorkflowRules.Proofs.Store.Written
import WorkflowRules.Store.Directory

/-!
# The directory of the file that is opened

Before a database is opened, the directory of the path in its address is made; then the file is created
that the address leads to. The directory is that of the path as it is written, and none is made when the
path has `:memory:` in it; the file has the name that is decoded. So the file has a directory to be
created in only where the two agree, or where its directory is on the way to the other one. Apart from
that, a path that goes up again may have made a directory of the place of its file.

* `Place.way` — the places on the way that names lead
* `Directory.makeAll_spec` — the directories that are made
* `Target.Creates` — a target that is a file of its own
* `Directory.directoryWay`, `Directory.madeDirectory` — what is made for a path
* `Directory.connect_housing` — when a database is opened, and what is there afterwards
-/

namespace WorkflowRules.Store

open Text (utf8Bytes occurs)

/-! ## Ways -/

namespace Place

/-- The places on the way that names lead, one after the other. -/
def way (place : Place) : List FileName → List Place
  | [] => []
  | name :: rest => place.step name :: way (place.step name) rest

/-- A way ends where its names lead. -/
theorem foldl_step_mem_way {place : Place} {names : List FileName} (h : names ≠ []) :
    names.foldl step place ∈ place.way names := by
  induction names generalizing place with
  | nil => exact absurd rfl h
  | cons name rest ih =>
    rw [List.foldl_cons, way]
    cases rest with
    | nil => exact List.mem_cons_self
    | cons next others => exact List.mem_cons_of_mem _ (ih (List.cons_ne_nil _ _))

theorem step_of_ne {names : List FileName} {name : FileName} (h : name ≠ utf8Bytes "..") :
    (inside names).step name = inside (names ++ [name]) :=
  if_neg h

/-- Names that do not go up lead to the place below with these names. -/
theorem foldl_step_inside {names ns : List FileName} (h : utf8Bytes ".." ∉ ns) :
    ns.foldl step (inside names) = inside (names ++ ns) := by
  induction ns generalizing names with
  | nil => rw [List.foldl_nil, List.append_nil]
  | cons name rest ih =>
    rw [List.mem_cons, not_or] at h
    rw [List.foldl_cons, step_of_ne (Ne.symm h.1), ih h.2, List.append_assoc, List.singleton_append]

/-- A way that does not go up only leads to places whose names are its own up to some point. -/
theorem prefix_of_mem_way {names ns found : List FileName} (h : utf8Bytes ".." ∉ ns)
    (hmem : inside found ∈ (inside names).way ns) : found <+: names ++ ns := by
  induction ns generalizing names with
  | nil => cases hmem
  | cons name rest ih =>
    rw [List.mem_cons, not_or] at h
    rw [way, step_of_ne (Ne.symm h.1)] at hmem
    rw [List.append_cons]
    rcases List.mem_cons.1 hmem with heq | hmem
    · rw [inside.inj heq]
      exact List.prefix_append _ _
    · exact ih h.2 hmem

/-- From outside of the working directory no way is known back. -/
theorem foldl_step_outside (names ns : List FileName) :
    ∃ found, ns.foldl step (outside names) = outside found := by
  induction ns generalizing names with
  | nil => exact ⟨names, rfl⟩
  | cons name rest ih =>
    rw [List.foldl_cons, step]
    split <;> exact ih _

end Place

namespace FilePath

theorem start_cases (bytes : List UInt8) :
    (ofBytes bytes).start = .inside [] ∨ (ofBytes bytes).start = .outside [] := by
  rw [ofBytes]
  split
  · exact .inr rfl
  · exact .inl rfl

/-- A path that leads into the working directory starts there. -/
theorem start_of_place {p : FilePath} {names : List FileName}
    (hstart : p.start = .inside [] ∨ p.start = .outside []) (hplace : p.place = .inside names) :
    p.start = .inside [] := by
  refine hstart.resolve_right fun houtside => ?_
  obtain ⟨found, hfound⟩ := Place.foldl_step_outside [] p.names
  rw [place, houtside, hfound] at hplace
  cases hplace

end FilePath

/-! ## Making directories -/

namespace Directory

variable {d : Directory}

theorem kind_inside_iff (names : List FileName) :
    d.kind (.inside names) = .directory ↔ names = [] ∨ names ∈ d.directories := by
  have hcond : (names.isEmpty || d.directories.contains names) = true ↔
      names = [] ∨ names ∈ d.directories := by simp
  rw [kind, ← hcond]
  split
  · next h => exact iff_of_true rfl h
  · next h => exact iff_of_false (by split <;> simp) h

theorem kind_of_noFiles (files : d.files = []) (place : Place) :
    d.kind place = .directory ∨ d.kind place = .missing := by
  cases place with
  | outside names => exact .inl rfl
  | inside names =>
    rw [kind, files]
    split
    · exact .inl rfl
    · exact .inr rfl

/-- Where there are no files, all directories on a way are made, and no others. -/
theorem makeAll_spec (files : d.files = []) (place : Place) {names : List FileName}
    (short : ∀ n ∈ names, n.length ≤ maxNameBytes) :
    ∃ d', d.makeAll place names = (d', true) ∧ d'.files = [] ∧
      ∀ ns, ns ∈ d'.directories ↔ ns ∈ d.directories ∨ ns ≠ [] ∧ .inside ns ∈ place.way names := by
  induction names generalizing d place with
  | nil => exact ⟨d, rfl, files, by simp [Place.way]⟩
  | cons name rest ih =>
    obtain ⟨hname, hrest⟩ := List.forall_mem_cons.1 short
    rw [makeAll, if_neg (Nat.not_lt.2 hname)]
    rcases kind_of_noFiles files (place.step name) with hkind | hkind
    · obtain ⟨d', hmake, hfiles, hdirectories⟩ := ih files (place.step name) hrest
      refine ⟨d', by rw [hkind]; exact hmake, hfiles, fun ns => ?_⟩
      rw [hdirectories, Place.way, List.mem_cons]
      -- the first place on the way is a directory already
      have hold (hns : ns ≠ []) (heq : .inside ns = place.step name) : ns ∈ d.directories :=
        ((kind_inside_iff ns).1 (heq ▸ hkind)).resolve_left hns
      constructor
      · exact Or.imp_right fun h => ⟨h.1, .inr h.2⟩
      · rintro (h | ⟨hns, heq | hway⟩)
        · exact .inl h
        · exact .inl (hold hns heq)
        · exact .inr ⟨hns, hway⟩
    · obtain ⟨found, hfound⟩ : ∃ found, place.step name = .inside found := by
        cases hstep : place.step name with
        | outside found => rw [hstep] at hkind; cases hkind
        | inside found => exact ⟨found, rfl⟩
      have hnew : found ≠ [] := by
        rintro rfl
        rw [hfound] at hkind
        cases hkind
      obtain ⟨d', hmake, hfiles, hdirectories⟩ :=
        ih (d := d.addDirectory (.inside found)) files (.inside found) hrest
      refine ⟨d', by rw [hkind, hfound]; exact hmake, hfiles, fun ns => ?_⟩
      have hadded : ns ∈ (d.addDirectory (.inside found)).directories ↔
          ns ∈ d.directories ∨ ns = found := by simp [addDirectory]
      rw [hdirectories, hadded, Place.way, hfound, List.mem_cons, Place.inside.injEq]
      constructor
      · rintro ((hold | rfl) | hway)
        · exact .inl hold
        · exact .inr ⟨hnew, .inl rfl⟩
        · exact .inr ⟨hway.1, .inr hway.2⟩
      · rintro (hold | ⟨hns, rfl | hway⟩)
        · exact .inl (.inl hold)
        · exact .inl (.inr rfl)
        · exact .inr ⟨hns, hway⟩

/-! ## What is made for a path -/

/-- The places on the way to the directory of a path; none when the path has `:memory:` in it. -/
def directoryWay (path : String) : List Place :=
  if occurs ":memory:".toList path.toList then []
  else
    let parent := (FilePath.ofBytes (utf8Bytes path)).parent
    parent.start.way parent.names

theorem directoryWay_empty : directoryWay "" = [] := by
  decide +kernel

/-- The directory that is made for a path; when none is, the working directory is there. -/
def madeDirectory (path : String) : Place :=
  if occurs ":memory:".toList path.toList then .inside []
  else (FilePath.ofBytes (utf8Bytes path)).parent.place

/-- A directory can be made for the path: neither it nor a name of it is too long, or has a byte zero. -/
structure Makeable (path : String) : Prop where
  names : ∀ n ∈ (FilePath.ofBytes (utf8Bytes path)).parent.names, n.length ≤ maxNameBytes ∧ 0 ∉ n
  length : writtenBytes (FilePath.ofBytes (utf8Bytes path)).parent.names ≤ maxDirectoryBytes

theorem makeParent_eq {path : String} (makeable : Makeable path) :
    d.makeParent path = d.makeAll (FilePath.ofBytes (utf8Bytes path)).parent.start
      (FilePath.ofBytes (utf8Bytes path)).parent.names := by
  have hzero : (FilePath.ofBytes (utf8Bytes path)).parent.names.any (·.contains 0) = false := by
    rw [List.any_eq_false]
    exact fun n hn hcontains => (makeable.names n hn).2 (List.contains_iff_mem.1 hcontains)
  have hlength : ¬ maxDirectoryBytes < writtenBytes (FilePath.ofBytes (utf8Bytes path)).parent.names :=
    Nat.not_lt.2 makeable.length
  rw [makeParent, hzero]
  simp only [Bool.false_or, decide_eq_true_eq]
  rw [if_neg hlength]

/-- What is done before the address is used. -/
def prepare (d : Directory) (url : String) : Directory × Bool :=
  match Address.directoryPath? url with
  | none => (d, true)
  | some path => d.makeParent path

/-- In an empty directory, what is on the way to the directory of the path is made, and nothing else. -/
theorem prepare_spec {url path : String} {query : Option String}
    (written : Address.Written url path query) (makeable : Makeable path) :
    ∃ d, prepare (ofFiles []) url = (d, true) ∧ d.files = [] ∧
      ∀ ns, ns ∈ d.directories ↔ ns ≠ [] ∧ .inside ns ∈ directoryWay path := by
  rw [prepare, Address.directoryPath?_written written]
  by_cases hnone : path = "" ∨ occurs ":memory:".toList path.toList = true
  · have hway : directoryWay path = [] := by
      rcases hnone with rfl | hmemory
      · exact directoryWay_empty
      · rw [directoryWay, if_pos hmemory]
    rw [if_pos hnone, hway]
    exact ⟨ofFiles [], rfl, rfl, by simp [ofFiles]⟩
  · obtain ⟨d, hmake, hfiles, hdirectories⟩ := makeAll_spec (d := ofFiles []) rfl
      (FilePath.ofBytes (utf8Bytes path)).parent.start fun n hn => (makeable.names n hn).1
    rw [if_neg hnone, directoryWay, if_neg (not_or.1 hnone).2]
    exact ⟨d, (makeParent_eq makeable).trans hmake, hfiles, by simpa [ofFiles] using hdirectories⟩

end Directory

/-! ## Opening the file -/

/-- The target is a file of its own in the tree, which is created when it is missing. -/
structure Target.Creates (t : Target) (names : List FileName) : Prop where
  medium : t.medium = .file .create
  layer : ∀ layer, t.layer = some layer → layer ∈ Directory.fileLayers
  pattern : t.pattern = none
  named : t.name ≠ [] ∧ t.name ≠ utf8Bytes ":memory:"
  place : (FilePath.ofBytes t.name).databasePlace? = some (.inside names)
  proper : names ≠ []

theorem Target.creates_file {name : List UInt8} {names : List FileName}
    (named : name ≠ [] ∧ name ≠ utf8Bytes ":memory:")
    (place : (FilePath.ofBytes name).databasePlace? = some (.inside names)) (proper : names ≠ []) :
    ({ name, medium := .file .create } : Target).Creates names where
  medium := rfl
  layer _ h := by cases h
  pattern := rfl
  named := named
  place := place
  proper := proper

namespace FilePath

theorem place_of_databasePlace? {p : FilePath} {place : Place} (h : p.databasePlace? = some place) :
    p.place = place := by
  unfold databasePlace? at h
  split at h
  · split at h
    · next hplace => exact hplace.trans (Option.some.inj h)
    · next hplace =>
      split at h
      · exact hplace.trans (Option.some.inj h)
      · cases h
  · cases h

end FilePath

namespace Directory

variable {d : Directory} {t : Target} {names : List FileName}

/-- Such a target is opened as a file that may be made. -/
theorem openTarget_of_creates (creates : t.Creates names) :
    d.openTarget t = d.openFile .create (.inside names) := by
  have hnamed : d.openNamed t = d.openFile .create (.inside names) := by
    have hname : ¬ (t.name = [] ∨ t.name = utf8Bytes ":memory:") :=
      not_or.2 creates.named
    rw [openNamed, creates.medium, creates.pattern]
    simp only [if_neg hname, creates.place, Option.all_none]
  rw [openTarget]
  cases hlayer : t.layer with
  | none => exact hnamed
  | some layer =>
    have hmem := creates.layer layer hlayer
    have hfiles : layer ≠ memoryLayer := by
      rintro rfl
      exact absurd hmem (by decide)
    have hcontains : fileLayers.contains layer = true := List.contains_iff_mem.2 hmem
    simp only [if_neg hfiles, hcontains, if_true]
    exact hnamed

/-- Where there are no files, a file is created unless a directory is there, or none to hold it. -/
theorem openFile_spec (files : d.files = []) (proper : names ≠ []) :
    d.openFile .create (.inside names) =
      if (names.dropLast = [] ∨ names.dropLast ∈ d.directories) ∧ names ∉ d.directories then
        (d.addFile (.inside names), true)
      else (d, false) := by
  rw [openFile]
  by_cases hthere : names ∈ d.directories
  · have hkind : d.kind (.inside names) = .directory := (kind_inside_iff names).2 (.inr hthere)
    simp only [hkind]
    rw [if_neg fun h => h.2 hthere]
  · have hkind : d.kind (.inside names) = .missing := by
      refine (kind_of_noFiles files _).resolve_left fun h => ?_
      exact ((kind_inside_iff names).1 h).elim proper hthere
    have habove : d.kind (Place.inside names).above = .directory ↔
        names.dropLast = [] ∨ names.dropLast ∈ d.directories := kind_inside_iff _
    simp only [hkind, ← habove, hthere, not_false_iff, and_true, decide_true, Bool.true_and,
      decide_eq_true_eq]

/-! ## Connecting -/

theorem connect_of_prepare {url : String} {d d' : Directory} (h : prepare d url = (d', true)) :
    d.connect url =
      match (Address.parse? url).bind Address.target? with
      | none => (d', false)
      | some t => d'.openTarget t := by
  have hconnect : d.connect url =
      if (prepare d url).2 = true then
        match (Address.parse? url).bind Address.target? with
        | none => ((prepare d url).1, false)
        | some t => (prepare d url).1.openTarget t
      else prepare d url := rfl
  rw [hconnect, h]
  exact if_pos rfl

/-- The directory that is made lies on the way to it, or is the working directory. -/
theorem mem_way_of_madeDirectory {path : String} {names : List FileName}
    (h : madeDirectory path = .inside names) : names = [] ∨ .inside names ∈ directoryWay path := by
  unfold madeDirectory at h
  unfold directoryWay
  split at h
  · exact .inl (Place.inside.inj h).symm
  · next hmemory =>
    rw [if_neg hmemory]
    have hstart := FilePath.start_of_place (p := (FilePath.ofBytes (utf8Bytes path)).parent)
      (FilePath.start_cases (utf8Bytes path)) h
    by_cases hnames : (FilePath.ofBytes (utf8Bytes path)).parent.names = []
    · rw [FilePath.place, hnames] at h
      exact .inl (Place.inside.inj (h.symm.trans hstart))
    · exact .inr (h ▸ Place.foldl_step_mem_way hnames)

/-- The directory of a plain path that does not go up is the one above its file, and leaves its place free. -/
theorem madeDirectory_of_plain {path : String} (plain : Address.Plain path)
    (down : utf8Bytes ".." ∉ (FilePath.ofBytes (utf8Bytes path)).names)
    (hplace : (FilePath.ofBytes (utf8Bytes path)).place = .inside names) (proper : names ≠ []) :
    madeDirectory path = .inside names.dropLast ∧ .inside names ∉ directoryWay path := by
  have hstart := FilePath.start_of_place (FilePath.start_cases (utf8Bytes path)) hplace
  have hnames : (FilePath.ofBytes (utf8Bytes path)).names = names := by
    rw [FilePath.place, hstart, Place.foldl_step_inside down] at hplace
    exact Place.inside.inj hplace
  have hparent : (FilePath.ofBytes (utf8Bytes path)).parent.names = names.dropLast :=
    congrArg List.dropLast hnames
  have hdown : utf8Bytes ".." ∉ names.dropLast := fun hmem =>
    down (hnames ▸ List.dropLast_subset _ hmem)
  have hmade : (FilePath.ofBytes (utf8Bytes path)).parent.place = .inside names.dropLast := by
    rw [FilePath.place, hparent, show (FilePath.ofBytes (utf8Bytes path)).parent.start = _ from hstart]
    exact Place.foldl_step_inside hdown
  rw [madeDirectory, directoryWay, plain.memory, hmade]
  refine ⟨rfl, fun hmem => ?_⟩
  have hway : .inside names ∈ (Place.inside []).way names.dropLast := hstart ▸ hparent ▸ hmem
  have hprefix : names <+: names.dropLast := Place.prefix_of_mem_way hdown hway
  have hlength := hprefix.length_le
  have hpos := List.length_pos_iff.2 proper
  rw [List.length_dropLast] at hlength
  omega

/--
A database at an address is opened exactly if the directory of the file that the address leads to is
among those that are made for the path as it is written, and the file itself is not. Made are all
directories on that way, and no others. So the database is opened if the directory that is made is the
one above the file, unless the way leads through the file; and both are the case for a path that stands
for itself and never goes up.
-/
theorem connect_housing {url path : String} {query : Option String} {t : Target}
    {names : List FileName} (written : Address.Written url path query) (makeable : Makeable path)
    (accepted : (Address.parse? url).bind Address.target? = some t) (creates : t.Creates names) :
    let out := (ofFiles []).connect url
    (out.2 = true ↔ (names.dropLast = [] ∨ .inside names.dropLast ∈ directoryWay path) ∧
        .inside names ∉ directoryWay path) ∧
      (∀ ns, ns ∈ out.1.directories ↔ ns ≠ [] ∧ .inside ns ∈ directoryWay path) ∧
      out.1.files = (if out.2 then [names] else []) ∧
      (madeDirectory path = .inside names.dropLast →
        (out.2 = true ↔ .inside names ∉ directoryWay path)) ∧
      (Address.Plain path → utf8Bytes ".." ∉ (FilePath.ofBytes (utf8Bytes path)).names →
        madeDirectory path = .inside names.dropLast ∧ out.2 = true) := by
  obtain ⟨d, hprepare, hfiles, hdirectories⟩ := prepare_spec written makeable
  -- the directories on the way are made first, and then only the place of the file decides
  have hout : (ofFiles []).connect url =
      if (names.dropLast = [] ∨ .inside names.dropLast ∈ directoryWay path) ∧
          .inside names ∉ directoryWay path then
        (d.addFile (.inside names), true)
      else (d, false) := by
    have habove : names.dropLast = [] ∨ names.dropLast ∈ d.directories ↔
        names.dropLast = [] ∨ .inside names.dropLast ∈ directoryWay path := by
      rw [hdirectories, or_and_left]
      exact and_iff_right (em _)
    have hfile : names ∈ d.directories ↔ .inside names ∈ directoryWay path :=
      (hdirectories names).trans (and_iff_right creates.proper)
    rw [connect_of_prepare hprepare, accepted]
    exact (openTarget_of_creates creates).trans
      ((openFile_spec hfiles creates.proper).trans (by simp only [habove, hfile]))
  have hopened : ((ofFiles []).connect url).2 = true ↔
      (names.dropLast = [] ∨ .inside names.dropLast ∈ directoryWay path) ∧
        .inside names ∉ directoryWay path := by
    rw [hout]
    split
    · next h => exact iff_of_true rfl h
    · next h => exact iff_of_false Bool.false_ne_true h
  have hsame (made : madeDirectory path = .inside names.dropLast) :
      ((ofFiles []).connect url).2 = true ↔ .inside names ∉ directoryWay path :=
    hopened.trans (and_iff_right (mem_way_of_madeDirectory made))
  refine ⟨hopened, fun ns => ?_, ?_, hsame, fun plain down => ?_⟩
  · rw [← hdirectories, hout]
    split <;> rfl
  · rw [hout]
    split
    · show d.files ++ [names] = _
      rw [hfiles]
      rfl
    · exact hfiles
  · have hplace := FilePath.place_of_databasePlace? creates.place
    rw [Address.target_name written plain accepted] at hplace
    obtain ⟨made, free⟩ := madeDirectory_of_plain plain down hplace creates.proper
    exact ⟨made, (hsame made).2 free⟩

/-- In an empty directory, the file is made in a directory that is made for it. -/
theorem connect_housing_data :
    let url := "sqlite:data/app.db?mode=rwc"
    let file := [utf8Bytes "data", utf8Bytes "app.db"]
    Address.Written url "data/app.db" (some "mode=rwc") ∧ Makeable "data/app.db" ∧
      (∃ t, (Address.parse? url).bind Address.target? = some t ∧ t.Creates file) ∧
      Address.Plain "data/app.db" ∧ madeDirectory "data/app.db" = .inside [utf8Bytes "data"] ∧
      ((ofFiles []).connect url).2 = true ∧ ((ofFiles []).connect url).1.files = [file] := by
  intro url file
  have written : Address.Written url "data/app.db" (some "mode=rwc") :=
    ⟨.inr ⟨by decide +kernel, by decide⟩, by decide⟩
  have makeable : Makeable "data/app.db" := ⟨by decide +kernel, by decide +kernel⟩
  let t : Target := { name := utf8Bytes "data/app.db", medium := .file .create }
  have accepted : (Address.parse? url).bind Address.target? = some t := by decide +kernel
  have creates : t.Creates file :=
    Target.creates_file (by decide +kernel) (by decide +kernel) (by decide)
  have plain : Address.Plain "data/app.db" :=
    ⟨by decide +kernel, by decide +kernel, by decide, by decide +kernel, by decide +kernel⟩
  obtain ⟨-, -, files, -, housed⟩ := connect_housing written makeable accepted creates
  obtain ⟨made, opened⟩ := housed plain (by decide +kernel)
  rw [opened] at files
  exact ⟨written, makeable, ⟨t, accepted, creates⟩, plain, made, opened, files⟩

/-- An encoded name is made as it is written, and beside a name with `:memory:` in it none is made. -/
theorem directory_missed :
    (∃ t, (Address.parse? "sqlite://my%20data/app.db").bind Address.target? = some t ∧
        t.Creates [utf8Bytes "my data", utf8Bytes "app.db"]) ∧
      (ofFiles []).connect "sqlite://my%20data/app.db" = (⟨[[utf8Bytes "my%20data"]], []⟩, false) ∧
      (∃ t, (Address.parse? "sqlite://old:memory:/app.db").bind Address.target? = some t ∧
        t.Creates [utf8Bytes "old:memory:", utf8Bytes "app.db"]) ∧
      (ofFiles []).connect "sqlite://old:memory:/app.db" = (⟨[], []⟩, false) := by
  refine ⟨⟨{ name := utf8Bytes "my data/app.db", medium := .file .create }, by decide +kernel, ?_⟩,
    by decide +kernel,
    ⟨{ name := utf8Bytes "old:memory:/app.db", medium := .file .create }, by decide +kernel, ?_⟩,
    by decide +kernel⟩
  · exact Target.creates_file (by decide +kernel) (by decide +kernel) (by decide)
  · exact Target.creates_file (by decide +kernel) (by decide +kernel) (by decide)

-- a path that goes up again may make a directory of the place of its file
example : (ofFiles []).connect "sqlite://app/../app" = (⟨[[utf8Bytes "app"]], []⟩, false) := by
  decide +kernel

end Directory

end WorkflowRules.Store
