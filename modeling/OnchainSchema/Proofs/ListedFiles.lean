import OnchainSchema.Proofs.LintTotals
import OnchainSchema.Proofs.SeenPlaces

/-!
The files that lint finds below a directory: what they are, that each is taken once, and in which
order.
-/
namespace OnchainSchema

namespace Lint

open FileTree (pathLimit nameLimit)

mutual
/-- The places of the files that are found at an entry and below it, as names from the entry on. -/
def placesAt (t : FileTree) (path : Path) : Entry → List (List OsText)
  | .dir entries access =>
    if t.isDir path then (if access.list then placesIn t path entries else [])
    else if isJsonFile path then [[]] else []
  | .file _ _ => if isJsonFile path then [[]] else []
def placesIn (t : FileTree) (dir : Path) : List (OsText × Entry) → List (List OsText)
  | [] => []
  | (name, e) :: rest => (placesAt t (dir.join name) e).map (name :: ·) ++ placesIn t dir rest
end

theorem placesIn_eq_flatMap (t : FileTree) (dir : Path) (es : List (OsText × Entry)) :
    placesIn t dir es = es.flatMap fun c => (placesAt t (dir.join c.1) c.2).map (c.1 :: ·) := by
  induction es with
  | nil => rfl
  | cons c es ih => rw [placesIn, ih, List.flatMap_cons]

mutual
theorem filesAt_eq_map (t : FileTree) (path : Path) : (e : Entry) →
    filesAt t path e = (placesAt t path e).map path.along
  | .file _ _ => by
    rw [filesAt, placesAt]
    split <;> rfl
  | .dir es access => by
    rw [filesAt, placesAt]
    split
    · split
      · exact filesIn_eq_map t path es
      · rfl
    · split <;> rfl
theorem filesIn_eq_map (t : FileTree) (dir : Path) : (es : List (OsText × Entry)) →
    filesIn t dir es = (placesIn t dir es).map dir.along
  | [] => rfl
  | (name, e) :: rest => by
    rw [filesIn, placesIn, filesAt_eq_map t (dir.join name) e, filesIn_eq_map t dir rest,
      List.map_append, List.map_map]
    rfl
end

/-- Lint lists the directory at the end of the names. -/
def Entered (t : FileTree) (path : Path) (e : Entry) (names : List OsText) : Prop :=
  t.isDir (path.along names) = true ∧
    ∃ access, e.contentAt? names = some (.directory access) ∧ access.list = true

section Found

variable {t : FileTree} {path : Path} {e : Entry} {n : OsText} {names : List OsText}

theorem nil_mem_placesAt_iff :
    [] ∈ placesAt t path e ↔
      isJsonFile path = true ∧ (e.DirectoryAt [] → t.isDir path = false) := by
  cases e with
  | file bytes access => by_cases hjson : isJsonFile path <;>
      simp [placesAt, hjson, Entry.DirectoryAt, Entry.content]
  | dir es access =>
    rw [placesAt]
    cases hisDir : t.isDir path with
    | false => by_cases hjson : isJsonFile path <;> simp [hjson]
    | true =>
      have hdirectory : (Entry.dir es access).DirectoryAt [] := ⟨access, rfl⟩
      cases access.list <;> simp [placesIn_eq_flatMap, hdirectory]

/-- What is found further down is found in a directory that is entered. -/
theorem cons_mem_placesAt_iff (he : e.WellNamed) :
    n :: names ∈ placesAt t path e ↔
      Entered t path e [] ∧ ∃ es access child, e = .dir es access ∧
        Members.get? n es = some child ∧ names ∈ placesAt t (path.join n) child := by
  cases e with
  | file bytes access => by_cases hjson : isJsonFile path <;> simp [placesAt, hjson]
  | dir es access =>
    have hentered : Entered t path (.dir es access) [] ↔
        t.isDir path = true ∧ access.list = true := by
      simp [Entered, Entry.content]
    have hmem : n :: names ∈ placesIn t path es ↔
        ∃ child, Members.get? n es = some child ∧ names ∈ placesAt t (path.join n) child := by
      rw [placesIn_eq_flatMap]
      simp [Members.mem_iff_get?_eq_some he.nodup]
    rw [hentered, placesAt]
    cases t.isDir path with
    | false => by_cases hjson : isJsonFile path <;> simp [hjson]
    | true => cases access.list <;> simp [hmem]

/-- A place is found if its path is that of a JSON file, all directories on the way are entered, and
what stands there is a file or cannot be told from one. -/
theorem mem_placesAt_iff (he : e.WellNamed) :
    names ∈ placesAt t path e ↔
      isJsonFile (path.along names) = true ∧
      (∀ outer, outer <+: names → outer ≠ names → Entered t path e outer) ∧
      (e.at? names).isSome ∧ (e.DirectoryAt names → t.isDir (path.along names) = false) := by
  induction names generalizing path e with
  | nil => cases e <;> simp [nil_mem_placesAt_iff, Entry.at?]
  | cons n names ih =>
    rw [cons_mem_placesAt_iff he]
    constructor
    · rintro ⟨hentered, es, access, child, rfl, hchild, hmem⟩
      obtain ⟨hjson, hway, hsome, hdirectory⟩ :=
        (ih (he.child (Members.mem_of_get?_eq_some hchild))).mp hmem
      refine ⟨hjson, fun outer houter hne => ?_, ?_, ?_⟩
      · cases outer with
        | nil => exact hentered
        | cons m outer =>
          obtain ⟨rfl, hrest⟩ := List.cons_prefix_cons.mp houter
          have hbelow := hway outer hrest (by simpa using hne)
          rwa [Entered, Path.along_cons, Entry.contentAt?_dir_cons, hchild]
      · rwa [Entry.at?, hchild]
      · rwa [Entry.DirectoryAt, Entry.contentAt?_dir_cons, hchild]
    · rintro ⟨hjson, hway, hsome, hdirectory⟩
      refine ⟨hway [] List.nil_prefix (by simp), ?_⟩
      cases e with
      | file bytes access => cases hsome
      | dir es access =>
        rw [Entry.at?] at hsome
        cases hchild : Members.get? n es with
        | none => rw [hchild] at hsome; cases hsome
        | some child =>
          rw [hchild] at hsome
          rw [Entry.DirectoryAt, Entry.contentAt?_dir_cons, hchild] at hdirectory
          refine ⟨es, access, child, rfl, hchild, ?_⟩
          rw [ih (he.child (Members.mem_of_get?_eq_some hchild))]
          refine ⟨hjson, fun outer houter hne => ?_, hsome, hdirectory⟩
          have hbelow := hway (n :: outer) (List.cons_prefix_cons.mpr ⟨rfl, houter⟩)
            (by simpa using hne)
          rwa [Entered, Path.along_cons, Entry.contentAt?_dir_cons, hchild] at hbelow

/-- In a directory that can be listed and not searched, a directory passes for a file. -/
example :
    let e : Entry := .dir [("x.json", .dir [])] ⟨true, false, true⟩
    placesAt ⟨.dir [("d", e)], []⟩ ⟨"d"⟩ e = [[OsText.ofString "x.json"]] := by
  decide

theorem nodup_placesAt (he : e.WellNamed) : (placesAt t path e).Nodup := by
  induction e using Entry.induction generalizing path with
  | file bytes access =>
    rw [placesAt]
    split <;> simp
  | dir es access ih =>
    rw [placesAt]
    split
    · split
      · rw [placesIn_eq_flatMap]
        refine List.nodup_flatMap.mpr ⟨?_, ?_⟩
        · intro c hc
          exact (ih c hc (he.child hc)).map List.cons_injective
        · -- places below different names differ in the first name
          refine (List.pairwise_map.mp he.nodup).imp ?_
          intro c d hcd names hc hd
          obtain ⟨rest, -, rfl⟩ := List.mem_map.mp hc
          obtain ⟨rest', -, hrest⟩ := List.mem_map.mp hd
          exact hcd (List.cons.inj hrest).1.symm
      · exact List.nodup_nil
    · split <;> simp

end Found

/-- What lint takes for a JSON file below a directory: what has the extension, in a directory that is
visible and can be listed, as all on the way to it can. It is a file, or a directory that is not
visible as one. -/
def Listed (dir : Path) (e : Entry) (names : List OsText) : Prop :=
  ∃ (outer : List OsText) (stem : OsText), names = outer ++ [stem ++ ".json"] ∧ stem ≠ "" ∧
    e.Visible dir outer ∧
    (∀ way, way <+: outer →
      ∃ access, e.contentAt? way = some (.directory access) ∧ access.list = true) ∧
    ((∃ bytes access, e.contentAt? names = some (.file bytes access)) ∨
      e.DirectoryAt names ∧ ¬ e.Visible dir names)

/-- What a reader of the tree takes for one: a file that has the extension. -/
def JsonFileAt (e : Entry) (names : List OsText) : Prop :=
  (∃ (outer : List OsText) (stem : OsText), names = outer ++ [stem ++ ".json"] ∧ stem ≠ "") ∧
    ∃ bytes access, e.contentAt? names = some (.file bytes access)

/-- Nothing stands in the way of a search: all directories can be listed and searched, and no name
and no path is too long. -/
structure Unhindered (dir : Path) (e : Entry) : Prop where
  access : ∀ names access, e.contentAt? names = some (.directory access) →
    access.list = true ∧ access.search = true
  limit : ∀ names, (e.at? names).isSome →
    (∀ name ∈ names, name.size ≤ nameLimit) ∧ (dir.along names).raw.size ≤ pathLimit

section Places

variable {t : FileTree} {dir : Path} {e : Entry} {names : List OsText}

theorem Listed.isSome_at? (h : Listed dir e names) : (e.at? names).isSome := by
  obtain ⟨-, -, -, -, -, -, hfound⟩ := h
  have hsome : (e.contentAt? names).isSome := by
    rcases hfound with ⟨bytes, access, hfile⟩ | ⟨⟨access, hdirectory⟩, -⟩
    · rw [hfile]; rfl
    · rw [hdirectory]; rfl
  rwa [Entry.contentAt?, Option.isSome_map] at hsome

theorem isJsonFile_along_iff {name : OsText} (hproper : ∀ n ∈ names ++ [name], Path.ProperName n)
    (hdir : dir.raw ≠ "") : isJsonFile (dir.along (names ++ [name])) = true ↔
      ∃ stem : OsText, stem ≠ "" ∧ name = stem ++ ".json" := by
  rw [isJsonFile, decide_eq_true_iff]
  exact Path.extension?_eq_json_iff (Path.name?_along hproper hdir)

theorem Listed.of_mem (h : t.entry? dir = some e) (htop : e.DirectoryAt []) (he : e.WellNamed)
    (hmem : names ∈ placesAt t dir e) : Listed dir e names := by
  have hraw := (FileTree.entry?_eq_some h).1
  obtain ⟨hjson, hway, hsome, hdirectory⟩ := (mem_placesAt_iff he).mp hmem
  have hproper := he.properName hsome
  rcases List.eq_nil_or_concat names with rfl | ⟨outer, name, rfl⟩
  · -- the directory itself is seen
    have hisDir : t.isDir (dir.along []) = true :=
      (Entry.isDir_along_iff h hproper).mpr ⟨Entry.Visible.nil h, htop⟩
    rw [hdirectory htop] at hisDir
    cases hisDir
  · rw [List.concat_eq_append] at *
    obtain ⟨stem, hstem, rfl⟩ := (isJsonFile_along_iff hproper hraw).mp hjson
    have hentered {way : List OsText} (hpre : way <+: outer) : Entered t dir e way := by
      refine hway way (hpre.trans (List.prefix_append _ _)) fun heq => ?_
      have hlength := hpre.length_le
      rw [heq, List.length_append, List.length_singleton] at hlength
      omega
    have hvisible : e.Visible dir outer :=
      ((Entry.isDir_along_iff h fun n hn => hproper n (List.mem_append_left _ hn)).mp
        (hentered (List.prefix_refl outer)).1).1
    refine ⟨outer, stem, rfl, hstem, hvisible, fun way hpre => (hentered hpre).2, ?_⟩
    obtain ⟨found, hfound⟩ := Option.isSome_iff_exists.mp hsome
    cases found with
    | file bytes access => exact .inl ⟨bytes, access, by rw [Entry.contentAt?, hfound]; rfl⟩
    | dir es access =>
      have hat : e.DirectoryAt (outer ++ [stem ++ ".json"]) :=
        ⟨access, Entry.contentAt?_eq_directory_iff.mpr ⟨es, hfound⟩⟩
      refine .inr ⟨hat, fun hvisible => ?_⟩
      have hisDir := (Entry.isDir_along_iff h hproper).mpr ⟨hvisible, hat⟩
      rw [hdirectory hat] at hisDir
      cases hisDir

theorem Listed.mem (h : t.entry? dir = some e) (he : e.WellNamed) (hlisted : Listed dir e names) :
    names ∈ placesAt t dir e := by
  have hraw := (FileTree.entry?_eq_some h).1
  have hsome := hlisted.isSome_at?
  have hproper := he.properName hsome
  obtain ⟨outer, stem, rfl, hstem, hvisible, hlist, hfound⟩ := hlisted
  rw [mem_placesAt_iff he]
  refine ⟨(isJsonFile_along_iff hproper hraw).mpr ⟨stem, hstem, rfl⟩, fun way hway hne => ?_, hsome,
    fun hdirectory => ?_⟩
  · have hpre := (List.prefix_concat_iff.mp hway).resolve_left hne
    have hproperOuter : ∀ n ∈ outer, Path.ProperName n :=
      fun n hn => hproper n (List.mem_append_left _ hn)
    obtain ⟨access, hat, haccess⟩ := hlist way hpre
    refine ⟨?_, access, hat, haccess⟩
    rw [Entry.isDir_along_iff h fun n hn => hproperOuter n (hpre.subset hn)]
    exact ⟨hvisible.of_prefix hpre hproperOuter hraw, access, hat⟩
  · rcases hfound with ⟨bytes, access, hfile⟩ | ⟨-, hhidden⟩
    · obtain ⟨access', hat⟩ := hdirectory
      rw [hfile] at hat
      cases hat
    · rw [Bool.eq_false_iff]
      exact fun hisDir => hhidden ((Entry.isDir_along_iff h hproper).mp hisDir).1

theorem mem_placesAt_iff_listed (h : t.entry? dir = some e) (htop : e.DirectoryAt [])
    (he : e.WellNamed) : names ∈ placesAt t dir e ↔ Listed dir e names :=
  ⟨Listed.of_mem h htop he, Listed.mem h he⟩

/-- The files are found in the order of the names that lead to them, each once. -/
theorem exists_places (h : t.entry? dir = some e) (htop : e.DirectoryAt []) (he : e.WellNamed) :
    ∃ places : List (List OsText), places.Pairwise (· < ·) ∧
      (∀ names, names ∈ places ↔ Listed dir e names) ∧
      filesOf t dir = places.map dir.along := by
  have hraw := (FileTree.entry?_eq_some h).1
  have hproper : ∀ names ∈ placesAt t dir e, ∀ name ∈ names, Path.ProperName name :=
    fun names hnames => he.properName ((mem_placesAt_iff he).mp hnames).2.2.1
  let notAfter (names names' : List OsText) : Bool := decide (¬ names' < names)
  have hperm : ((placesAt t dir e).mergeSort notAfter).Perm _ := List.mergeSort_perm ..
  refine ⟨(placesAt t dir e).mergeSort notAfter, ?_, ?_, ?_⟩
  · have hsorted : ((placesAt t dir e).mergeSort notAfter).Pairwise
        fun names names' => notAfter names names' = true := by
      refine List.pairwise_mergeSort ?_ ?_ _
      · intro a b c hab hbc
        simp only [notAfter, decide_eq_true_iff, not_lt] at hab hbc ⊢
        exact hab.trans hbc
      · intro a b
        simpa [notAfter] using le_total a b
    have hnodup := hperm.nodup_iff.mpr (nodup_placesAt he)
    refine hsorted.imp₂ (fun a b hab hne => ?_) hnodup
    simp only [notAfter, decide_eq_true_iff, not_lt] at hab
    exact lt_of_le_of_ne hab hne
  · intro names
    rw [hperm.mem_iff, mem_placesAt_iff_listed h htop he]
  · rw [filesOf, h]
    dsimp only
    rw [filesAt_eq_map]
    refine (List.map_mergeSort fun a ha b hb => ?_).symm
    rw [Path.le_along (hproper a ha) (hproper b hb) hraw]

/-- Where nothing is in the way, what stands in a tree is visible. -/
theorem Unhindered.visible (h : Unhindered dir e) (hsome : (e.at? names).isSome) :
    e.Visible dir names := by
  obtain ⟨hnames, hshort⟩ := h.limit names hsome
  refine ⟨fun way name hway => ⟨hnames name (hway.subset (by simp)), ?_⟩, hshort⟩
  obtain ⟨rest, rfl⟩ := hway
  rw [List.append_assoc] at hsome
  obtain ⟨access, hdirectory⟩ := Entry.directoryAt_of_below hsome
  exact ⟨access, hdirectory, (h.access way access hdirectory).2⟩

/-- Where nothing is in the way, lint takes exactly the JSON files. -/
theorem listed_iff_jsonFileAt (h : Unhindered dir e) : Listed dir e names ↔ JsonFileAt e names := by
  constructor
  · intro hlisted
    have hsome := hlisted.isSome_at?
    obtain ⟨outer, stem, hnames, hstem, -, -, hfile | ⟨-, hhidden⟩⟩ := hlisted
    · exact ⟨⟨outer, stem, hnames, hstem⟩, hfile⟩
    · exact absurd (h.visible hsome) hhidden
  · rintro ⟨⟨outer, stem, rfl, hstem⟩, bytes, access, hfile⟩
    have hdirectory {way : List OsText} (hway : way <+: outer) : e.DirectoryAt way := by
      obtain ⟨rest, rfl⟩ := hway
      obtain ⟨found, hfound, -⟩ := Option.map_eq_some_iff.mp hfile
      obtain ⟨n, below, hbelow⟩ :=
        List.exists_cons_of_ne_nil (List.append_ne_nil_of_right_ne_nil rest (List.cons_ne_nil _ []))
      rw [List.append_assoc, hbelow] at hfound
      exact Entry.directoryAt_of_below (by rw [hfound]; rfl)
    have houter := Entry.isSome_at?_of_directoryAt (hdirectory (List.prefix_refl outer))
    refine ⟨outer, stem, rfl, hstem, h.visible houter, fun way hway => ?_,
      .inl ⟨bytes, access, hfile⟩⟩
    obtain ⟨access, hat⟩ := hdirectory hway
    exact ⟨access, hat, (h.access way access hat).1⟩

theorem unhindered_file {bytes : ByteArray} {access : FileAccess}
    (hdir : dir.raw.size ≤ pathLimit) : Unhindered dir (.file bytes access) where
  access names access hat := by cases names <;> cases hat
  limit names hsome := by
    cases names with
    | nil => exact ⟨by simp, hdir⟩
    | cons n names => cases hsome

theorem unhindered_dir {es : List (OsText × Entry)} {access : DirAccess}
    (hlist : access.list = true) (hsearch : access.search = true)
    (hdir : dir.raw.size ≤ pathLimit)
    (hbelow : ∀ c ∈ es, c.1.size ≤ nameLimit ∧ Unhindered (dir.join c.1) c.2) :
    Unhindered dir (.dir es access) where
  access names access' hat := by
    cases names with
    | nil =>
      cases hat
      exact ⟨hlist, hsearch⟩
    | cons n names =>
      rw [Entry.contentAt?_dir_cons] at hat
      obtain ⟨child, hchild, hat⟩ := Option.bind_eq_some_iff.mp hat
      exact (hbelow _ (Members.mem_of_get?_eq_some hchild)).2.access names access' hat
  limit names hsome := by
    cases names with
    | nil => exact ⟨by simp, hdir⟩
    | cons n names =>
      obtain ⟨found, hfound⟩ := Option.isSome_iff_exists.mp hsome
      obtain ⟨child, hchild, hfound⟩ := Option.bind_eq_some_iff.mp hfound
      obtain ⟨hname, hopen⟩ := hbelow _ (Members.mem_of_get?_eq_some hchild)
      obtain ⟨hnames, hshort⟩ := hopen.limit names (by rw [hfound]; rfl)
      exact ⟨List.forall_mem_cons.mpr ⟨hname, hnames⟩, hshort⟩

theorem listed_congr {e' : Entry} (h : ∀ place, e.contentAt? place = e'.contentAt? place) :
    Listed dir e = Listed dir e' := by
  funext names
  simp only [Listed, Entry.Visible, Entry.DirectoryAt, h]

end Places

/-- What is found below a directory goes by the contents of places. -/
theorem filesOf_congr {t t' : FileTree} (ht : t.root.WellNamed) (ht' : t'.root.WellNamed)
    (hcwd : t'.cwd = t.cwd) (hsame : ∀ place, t.content? place = t'.content? place) {dir : Path}
    {entries : List (OsText × Entry)} {access : DirAccess}
    (h : t.entry? dir = some (.dir entries access)) : filesOf t' dir = filesOf t dir := by
  obtain ⟨-, -, place, hplace, hentries⟩ := FileTree.entry?_eq_some h
  have hdirectory : t'.content? place = some (.directory access) := by
    rw [← hsame, FileTree.content?, Entry.contentAt?, hentries]
    rfl
  -- the same directory in the other tree, with the same contents at every place below it
  obtain ⟨entries', hentries'⟩ := Entry.contentAt?_eq_directory_iff.mp hdirectory
  have h' : t'.entry? dir = some (.dir entries' access) := by
    rw [FileTree.entry?, ← FileTree.locate_congr hcwd hsame, hplace]
    exact hentries'
  have hbelow (names : List OsText) :
      (Entry.dir entries access).contentAt? names =
        (Entry.dir entries' access).contentAt? names := by
    have hnames := hsame (place ++ names)
    rwa [FileTree.content?, FileTree.content?, Entry.contentAt?, Entry.contentAt?,
      Entry.at?_append, Entry.at?_append, hentries, hentries'] at hnames
  obtain ⟨places, hsorted, hlisted, hfiles⟩ := exists_places h ⟨access, rfl⟩ (ht.at? hentries)
  obtain ⟨places', hsorted', hlisted', hfiles'⟩ :=
    exists_places h' ⟨access, rfl⟩ (ht'.at? hentries')
  have hplaces : places' = places := by
    refine hsorted'.eq_of_mem_iff hsorted fun names => ?_
    rw [hlisted, hlisted', listed_congr hbelow]
  rw [hfiles, hfiles', hplaces]

theorem files_lint (t : FileTree) (path : Path) (strict : Bool) :
    (lint t path strict).files.map (·.file) = filesOf t path := by
  rw [lint, List.map_map]
  exact List.map_id _

end Lint

open Lint
open FileTree (pathLimit)

/-- Below a directory lint takes, each once and in the order of the names on the way, the JSON files
and the directories that it cannot tell from one, as far as the directories let it. Where nothing is
in its way, these are the JSON files. In whatever order the directories of the tree are listed, its
report is the same. -/
theorem json_files_taken_once {t : FileTree} (ht : t.root.WellNamed) {dir : Path}
    {entries : List (OsText × Entry)} {access : DirAccess}
    (h : t.entry? dir = some (.dir entries access)) :
    (∃ places : List (List OsText), places.Pairwise (· < ·) ∧
      (∀ names, names ∈ places ↔ Listed dir (.dir entries access) names) ∧
      (∀ names ∈ places, (dir.along names).components = dir.components ++ names.map .name) ∧
      ∀ strict, (lint t dir strict).files.map (·.file) = places.map dir.along) ∧
    (Unhindered dir (.dir entries access) →
      ∀ names, Listed dir (.dir entries access) names ↔ JsonFileAt (.dir entries access) names) ∧
    ∀ t' : FileTree, t'.cwd = t.cwd → t.root.Relisted t'.root →
      ∀ strict, lint t' dir strict = lint t dir strict := by
  obtain ⟨hraw, -, place, hplace, hentries⟩ := FileTree.entry?_eq_some h
  have he : (Entry.dir entries access).WellNamed := ht.at? hentries
  obtain ⟨places, hsorted, hlisted, hfiles⟩ := exists_places h ⟨access, rfl⟩ he
  refine ⟨⟨places, hsorted, hlisted, ?_, ?_⟩, fun hopen names => listed_iff_jsonFileAt hopen, ?_⟩
  · intro names hnames
    exact Path.components_along (he.properName ((hlisted names).mp hnames).isSome_at?) hraw
  · intro strict
    rw [files_lint, hfiles]
  · intro t' hcwd hrelisted strict
    have hsame : ∀ place, t.content? place = t'.content? place := hrelisted.contentAt?_eq ht
    have hlint (file : Path) : lintFile t' file dir = lintFile t file dir :=
      lintFile_congr (FileTree.source_congr hcwd hsame).symm file dir
    simp only [lint, filesOf_congr ht (hrelisted.wellNamed ht) hcwd hsame h, hlint]

section Samples

/-- Two schemas, one of them further down, a name that is all extension, and a directory that is
named like a file. -/
def schemaEntries : List (OsText × Entry) :=
  [(".json", .file "".toUTF8), ("a", .dir [("c.json", .file "".toUTF8)]),
    ("b.json", .file "".toUTF8), ("x.json", .dir [])]

theorem wellNamed_schemaTree : (Entry.dir [("d", .dir schemaEntries)]).WellNamed := by
  have hfile := Entry.wellNamed_file "".toUTF8 .free
  have hempty : (Entry.dir []).WellNamed := Entry.wellNamed_dir (by simp) (by simp) (by simp)
  have hinner : (Entry.dir [("c.json", .file "".toUTF8)]).WellNamed :=
    Entry.wellNamed_dir (by decide) (by decide) (by simpa using hfile)
  have hentries : (Entry.dir schemaEntries).WellNamed :=
    Entry.wellNamed_dir (by decide) (by decide)
      (by simpa [schemaEntries] using ⟨hfile, hinner, hfile, hempty⟩)
  exact Entry.wellNamed_dir (by decide) (by decide) (by simpa using hentries)

theorem unhindered_schemaEntries : Unhindered ⟨"d"⟩ (.dir schemaEntries) := by
  have hinner : Unhindered ⟨"d/a"⟩ (.dir [("c.json", .file "".toUTF8)]) := by
    refine unhindered_dir rfl rfl (by decide) fun c hc => ?_
    obtain rfl := List.mem_singleton.mp hc
    exact ⟨by decide, unhindered_file (by decide)⟩
  refine unhindered_dir rfl rfl (by decide) fun c hc => ?_
  simp only [schemaEntries, List.mem_cons, List.not_mem_nil, or_false] at hc
  rcases hc with rfl | rfl | rfl | rfl
  · exact ⟨by decide, unhindered_file (by decide)⟩
  · exact ⟨by decide, hinner⟩
  · exact ⟨by decide, unhindered_file (by decide)⟩
  · exact ⟨by decide, unhindered_dir rfl rfl (by decide) (by simp)⟩

/-- However the directory is listed, the same two files are checked, the lower one first. They are
the JSON files. -/
theorem two_files_in_any_listing :
    let t' : FileTree := ⟨.dir [("d", .dir schemaEntries.reverse)], []⟩
    (lint t' ⟨"d"⟩ true).files.map (·.file) = [⟨"d/a/c.json"⟩, ⟨"d/b.json"⟩] ∧
    ∀ names, Listed ⟨"d"⟩ (.dir schemaEntries) names ↔ JsonFileAt (.dir schemaEntries) names := by
  intro t'
  let t : FileTree := ⟨.dir [("d", .dir schemaEntries)], []⟩
  have hentry : t.entry? ⟨"d"⟩ = some (.dir schemaEntries) := by rfl
  have hrelisted : t.root.Relisted t'.root :=
    @Entry.Relisted.inside [] [] "d" _ _ _ (.reorder (List.reverse_perm schemaEntries).symm)
  obtain ⟨-, hopen, hsame⟩ := json_files_taken_once wellNamed_schemaTree hentry
  have hfiles : filesOf t ⟨"d"⟩ = filesAt t ⟨"d"⟩ (.dir schemaEntries) :=
    filesOf_of_pairwise hentry (by decide)
  refine ⟨?_, hopen unhindered_schemaEntries⟩
  rw [hsame t' rfl hrelisted true, lint, hfiles]
  decide

/-- The directory `d`, spelled with so many slashes at the end. -/
def slashed (n : Nat) : Path := ⟨OsText.ofString "d" ++ ⟨List.replicate n Path.slash⟩⟩

theorem size_slashed (n : Nat) : (slashed n).raw.size = n + 1 := by
  rw [slashed, OsText.size_append, OsText.size, OsText.size, List.length_replicate, Nat.add_comm]
  rfl

theorem segments_slashed (n : Nat) :
    (slashed n).segments = OsText.ofString "d" :: List.replicate n (OsText.ofString "") := by
  have hpieces : Text.pieces (· == Path.slash) (List.replicate n Path.slash) =
      List.replicate (n + 1) [] := by
    induction n with
    | zero => rfl
    | succ n ih => rw [List.replicate_succ, Text.pieces, if_pos (by decide), ih]; rfl
  have hbytes : (slashed n).raw.bytes = 0x64 :: List.replicate n Path.slash := rfl
  rw [Path.segments, OsText.split, hbytes, Text.pieces, if_neg (by decide), hpieces,
    List.replicate_succ, List.modifyHead_cons, List.map_cons, List.map_replicate]
  rfl

/-- A directory named like a schema file. -/
def namesakeTree : FileTree := ⟨.dir [("d", .dir [("x.json", .dir [])])], []⟩

theorem entry?_slashed {n : Nat} (hn : n < pathLimit) :
    namesakeTree.entry? (slashed n) = some (.dir [("x.json", .dir [])]) := by
  have hraw : (slashed n).raw ≠ "" := fun hempty =>
    List.cons_ne_nil _ _ (congrArg OsText.bytes hempty)
  have hfault : FileTree.pathFault? (slashed n) = none :=
    FileTree.pathFault?_eq_none_iff.mpr ⟨hraw, by rw [size_slashed]; exact hn⟩
  have hslashes (k : Nat) :
      FileTree.walk namesakeTree.root [OsText.ofString "d"]
        (List.replicate k (OsText.ofString "")) = .ok [OsText.ofString "d"] := by
    induction k with
    | zero => rfl
    | succ k ih =>
      rw [List.replicate_succ, FileTree.walk]
      exact ih
  have hstart : namesakeTree.start (slashed n) = ([], (slashed n).segments) := rfl
  have hlocate : namesakeTree.locate (slashed n) = .ok [OsText.ofString "d"] := by
    rw [FileTree.locate, hfault, hstart, segments_slashed]
    exact hslashes n
  rw [FileTree.entry?, hlocate]
  rfl

/-- Where its path is too long to be looked up, a directory is taken for a file. -/
theorem filesOf_slashed {n : Nat} (hn : n < pathLimit) (hlong : pathLimit < n + 7) :
    filesOf namesakeTree (slashed n) = [(slashed n).join "x.json"] := by
  have hentry := entry?_slashed hn
  have hraw := (FileTree.entry?_eq_some hentry).1
  have hproper : Path.ProperName "x.json" := by decide
  have hsize : pathLimit < ((slashed n).join "x.json").raw.size := by
    have hname : (OsText.ofString "x.json").size = 6 := by decide
    have hslashed := size_slashed n
    rcases Path.join_cases hproper hraw with ⟨s, hs, hjoin⟩ | hjoin
    · rw [hs] at hslashed
      rw [hjoin, OsText.size_append, hslashed, hname]
      omega
    · rw [hjoin, OsText.size_append, OsText.size_append, hslashed, hname]
      omega
  have hhidden : namesakeTree.isDir ((slashed n).join "x.json") = false := by
    rw [FileTree.isDir, FileTree.entry?_join _ hproper hraw, if_neg (Nat.not_le.mpr hsize)]
  have hseen : namesakeTree.isDir (slashed n) = true := by rw [FileTree.isDir, hentry]
  have hjson : isJsonFile ((slashed n).along ([] ++ [OsText.ofString "x.json"])) = true :=
    (isJsonFile_along_iff (by simpa using hproper) hraw).mpr ⟨"x", by decide, rfl⟩
  rw [List.nil_append, Path.along_cons, Path.along_nil] at hjson
  rw [filesOf, hentry]
  simp only [filesAt, hseen, filesIn, hhidden, hjson, Bool.false_eq_true, ↓reduceIte,
    List.append_nil, List.mergeSort_singleton]

/-- A directory is checked as a file, although it stands in one that can be listed. -/
theorem directory_taken_for_file :
    namesakeTree.entry? (slashed 4089) = some (.dir [("x.json", .dir [])]) ∧
    (lint namesakeTree (slashed 4089) false).files.map (·.file) =
      [(slashed 4089).join "x.json"] := by
  refine ⟨entry?_slashed (by decide), ?_⟩
  rw [files_lint]
  exact filesOf_slashed (by decide) (by decide)

end Samples

end OnchainSchema
