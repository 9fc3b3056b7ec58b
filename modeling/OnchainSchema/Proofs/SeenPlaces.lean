import OnchainSchema.Proofs.ListingOrder

/-!
What can be seen below a directory. A path goes on from a directory as long as the directories on the
way can be searched, and neither a name on it nor the path itself is too long.
-/
namespace OnchainSchema

theorem Entry.at?_singleton (es : List (OsText × Entry)) (access : DirAccess) (name : OsText) :
    (Entry.dir es access).at? [name] = Members.get? name es := by
  rw [at?]
  cases Members.get? name es <;> simp [at?]

namespace FileTree

variable {t : FileTree} {root : Entry} {dir : Path} {name : OsText}

theorem entry?_eq_bind (t : FileTree) (p : Path) :
    t.entry? p = (t.locate p).toOption.bind t.root.at? := by
  unfold entry?
  cases t.locate p <;> rfl

/-- What a directory shows under a name, where the way to it has led to `found`. -/
def lookUp (name : OsText) (found : Option Entry) : Option Entry :=
  match found with
  | some (.dir es access) =>
    if access.search = true ∧ name.size ≤ nameLimit then Members.get? name es else none
  | _ => none

theorem walk_name (hname : Path.ProperName name) {place : List OsText}
    {es : List (OsText × Entry)} {access : DirAccess}
    (hat : root.at? place = some (.dir es access)) :
    walk root place [name] =
      if access.search = false then .error .noAccess
      else if nameLimit < name.size then .error .nameTooLong
      else .ok (place ++ [name]) := by
  simp only [walk, hat, hname.ne_empty, hname.ne_here, hname.ne_up, ne_eq, not_false_eq_true,
    true_and, or_self, if_false, Bool.not_eq_true']

/-- A name at the end of a walk is looked up in what the walk before it leads to. -/
theorem at?_walk_name (hname : Path.ProperName name) (w : Except FileFault (List OsText)) :
    (w.bind (walk root · [name])).toOption.bind root.at? =
      lookUp name (w.toOption.bind root.at?) := by
  cases w with
  | error fault => rfl
  | ok place =>
    change (walk root place [name]).toOption.bind root.at? = lookUp name (root.at? place)
    cases hat : root.at? place with
    | none => rw [walk, hat]; rfl
    | some e =>
      cases e with
      | file bytes access => rw [walk, hat]; rfl
      | dir es access =>
        have hget : root.at? (place ++ [name]) = Members.get? name es := by
          rw [Entry.at?_append, hat]
          exact Entry.at?_singleton es access name
        rw [walk_name hname hat, lookUp]
        by_cases hsearch : access.search = true
        · by_cases hlong : nameLimit < name.size
          · simp [hsearch, hlong, Except.toOption]
          · simp [hsearch, hlong, Except.toOption, hget, Nat.not_lt.mp hlong]
        · simp [hsearch, Except.toOption]

/-- A slash at the end of a walk lets only directories through. -/
theorem at?_walk_slash (w : Except FileFault (List OsText)) :
    (w.bind (walk root · [OsText.ofString ""])).toOption.bind root.at? =
      match w.toOption.bind root.at? with
      | some (.dir es access) => some (.dir es access)
      | _ => none := by
  cases w with
  | error fault => rfl
  | ok place =>
    change (walk root place [OsText.ofString ""]).toOption.bind root.at? =
      match root.at? place with
      | some (.dir es access) => some (.dir es access)
      | _ => none
    rw [walk]
    cases hat : root.at? place with
    | none => rfl
    | some e =>
      cases e with
      | file bytes access => rfl
      | dir es access => simp [walk, Except.toOption, hat]

/-- A joined path starts where the directory's does and goes its way, but for a slash at the end. -/
theorem start_join (t : FileTree) (hname : Path.ProperName name) (hdir : dir.raw ≠ "") :
    ∃ from_ way, t.start (dir.join name) = (from_, way ++ [name]) ∧
      (t.start dir = (from_, way) ∨ t.start dir = (from_, way ++ [OsText.ofString ""])) := by
  obtain ⟨first, rest, hjoin, hsegments⟩ := Path.segments_join hname hdir
  have hsegments : dir.segments = first :: rest ∨
      dir.segments = first :: (rest ++ [OsText.ofString ""]) := hsegments.imp_left And.left
  rw [start, start, Path.isAbsolute_join hname hdir, hjoin]
  cases dir.isAbsolute with
  | true =>
    refine ⟨[], rest, rfl, ?_⟩
    rcases hsegments with hsegments | hsegments <;> simp [hsegments]
  | false =>
    refine ⟨t.cwd, first :: rest, rfl, ?_⟩
    rcases hsegments with hsegments | hsegments <;> simp [hsegments]

/-- What a path shows one name further on. -/
theorem entry?_join (t : FileTree) (hname : Path.ProperName name) (hdir : dir.raw ≠ "") :
    t.entry? (dir.join name) =
      if (dir.join name).raw.size ≤ pathLimit then lookUp name (t.entry? dir) else none := by
  split
  next hsize =>
    have hfault : pathFault? (dir.join name) = none :=
      pathFault?_eq_none_iff.mpr ⟨Path.raw_join_ne_empty hname hdir, hsize⟩
    have hfault' : pathFault? dir = none :=
      pathFault?_eq_none_iff.mpr ⟨hdir, (Path.size_le_join hname hdir).trans hsize⟩
    obtain ⟨from_, way, hjoin, hstart | hstart⟩ := start_join t hname hdir
    · rw [entry?_eq_bind, entry?_eq_bind, locate, locate, hfault, hfault', hjoin, hstart]
      dsimp only
      rw [walk_append, at?_walk_name hname]
    · rw [entry?_eq_bind, entry?_eq_bind, locate, locate, hfault, hfault', hjoin, hstart]
      dsimp only
      rw [walk_append, walk_append, at?_walk_name hname, at?_walk_slash]
      cases (walk t.root from_ way).toOption.bind t.root.at? with
      | none => rfl
      | some e => cases e <;> rfl
  next hsize =>
    have hfault : pathFault? (dir.join name) = some .nameTooLong := by
      rw [pathFault?, if_neg (Path.raw_join_ne_empty hname hdir), if_pos (Nat.not_le.mp hsize)]
    rw [entry?_eq_bind, locate, hfault]
    rfl

theorem isDir_iff {p : Path} :
    t.isDir p = true ↔ ∃ es access, t.entry? p = some (.dir es access) := by
  rw [isDir]
  cases t.entry? p with
  | none => simp
  | some e => cases e <;> simp

theorem lookUp_eq_some_iff {found : Option Entry} {e : Entry} :
    lookUp name found = some e ↔ ∃ es access, found = some (.dir es access) ∧
      access.search = true ∧ name.size ≤ nameLimit ∧ Members.get? name es = some e := by
  cases found with
  | none => simp [lookUp]
  | some found => cases found <;> simp [lookUp, and_assoc]

theorem entry?_join_eq_some_iff (t : FileTree) (hname : Path.ProperName name) (hdir : dir.raw ≠ "")
    {e : Entry} :
    t.entry? (dir.join name) = some e ↔
      (dir.join name).raw.size ≤ pathLimit ∧ ∃ es access, t.entry? dir = some (.dir es access) ∧
        access.search = true ∧ name.size ≤ nameLimit ∧ Members.get? name es = some e := by
  rw [entry?_join t hname hdir, ← lookUp_eq_some_iff]
  split <;> simp [*]

end FileTree

namespace Entry

open FileTree (nameLimit pathLimit)

variable {dir : Path} {e : Entry} {names : List OsText}

/-- A look at the path shows what stands at the end of the names below a directory: each of them can
be looked up where it stands, and the path is not too long. -/
def Visible (dir : Path) (e : Entry) (names : List OsText) : Prop :=
  (∀ way name, way ++ [name] <+: names → name.size ≤ nameLimit ∧
    ∃ access, e.contentAt? way = some (.directory access) ∧ access.search = true) ∧
  (dir.along names).raw.size ≤ pathLimit

theorem visible_nil_iff : Visible dir e [] ↔ dir.raw.size ≤ pathLimit := by
  simp [Visible]

theorem Visible.nil {t : FileTree} (h : t.entry? dir = some e) : Visible dir e [] :=
  visible_nil_iff.mpr (FileTree.entry?_eq_some h).2.1

/-- On the way to a visible place all is visible. -/
theorem Visible.of_prefix {way : List OsText} (h : Visible dir e names) (hway : way <+: names)
    (hproper : ∀ n ∈ names, Path.ProperName n) (hdir : dir.raw ≠ "") : Visible dir e way := by
  obtain ⟨hlooked, hshort⟩ := h
  refine ⟨fun outer name hname => hlooked outer name (hname.trans hway), le_trans ?_ hshort⟩
  obtain ⟨rest, rfl⟩ := hway
  obtain ⟨hbefore, hafter⟩ := List.forall_mem_append.mp hproper
  rw [Path.along_append]
  exact Path.size_le_along hafter (Path.raw_along_ne_empty hbefore hdir)

theorem visible_concat_iff {name : OsText} (hproper : ∀ n ∈ names ++ [name], Path.ProperName n)
    (hdir : dir.raw ≠ "") :
    Visible dir e (names ++ [name]) ↔
      Visible dir e names ∧ name.size ≤ nameLimit ∧
        (∃ access, e.contentAt? names = some (.directory access) ∧ access.search = true) ∧
        (dir.along (names ++ [name])).raw.size ≤ pathLimit := by
  constructor
  · intro h
    obtain ⟨hlimit, haccess⟩ := h.1 names name (List.prefix_refl _)
    exact ⟨h.of_prefix (List.prefix_append _ _) hproper hdir, hlimit, haccess, h.2⟩
  · rintro ⟨⟨hway, -⟩, hlimit, haccess, hshort⟩
    refine ⟨fun way n hn => ?_, hshort⟩
    rcases List.prefix_concat_iff.mp hn with heq | hn
    · obtain ⟨rfl, hlast⟩ := List.append_inj' heq rfl
      obtain rfl := (List.cons.inj hlast).1
      exact ⟨hlimit, haccess⟩
    · exact hway way n hn

/-- What a path shows below a directory is what stands there, if it is visible. -/
theorem entry?_along_eq_some_iff {t : FileTree} (h : t.entry? dir = some e)
    (hproper : ∀ n ∈ names, Path.ProperName n) {found : Entry} :
    t.entry? (dir.along names) = some found ↔ Visible dir e names ∧ e.at? names = some found := by
  obtain ⟨hdir, hsize, -⟩ := FileTree.entry?_eq_some h
  induction names using List.reverseRecOn generalizing found with
  | nil =>
    rw [visible_nil_iff, Path.along_nil, h]
    cases e <;> simp [hsize, at?]
  | append_singleton names name ih =>
    obtain ⟨hnames, hname⟩ := List.forall_mem_append.mp hproper
    have hraw := Path.raw_along_ne_empty hnames hdir
    have hjoin : dir.along (names ++ [name]) = (dir.along names).join name := Path.along_append ..
    rw [visible_concat_iff hproper hdir, hjoin,
      FileTree.entry?_join_eq_some_iff t (hname _ (by simp)) hraw, at?_append]
    constructor
    · rintro ⟨hshort, es, access, hes, hsearch, hlimit, hget⟩
      obtain ⟨hvisible, hat⟩ := (ih hnames).mp hes
      refine ⟨⟨hvisible, hlimit, ⟨access, ?_, hsearch⟩, hshort⟩, ?_⟩
      · exact contentAt?_eq_directory_iff.mpr ⟨es, hat⟩
      · rw [hat, Option.bind_some, at?_singleton, hget]
    · rintro ⟨⟨hvisible, hlimit, ⟨access, hdirectory, hsearch⟩, hshort⟩, hfound⟩
      obtain ⟨es, hat⟩ := contentAt?_eq_directory_iff.mp hdirectory
      rw [hat, Option.bind_some, at?_singleton] at hfound
      exact ⟨hshort, es, access, (ih hnames).mpr ⟨hvisible, hat⟩, hsearch, hlimit, hfound⟩

theorem isDir_along_iff {t : FileTree} (h : t.entry? dir = some e)
    (hproper : ∀ n ∈ names, Path.ProperName n) :
    t.isDir (dir.along names) = true ↔ Visible dir e names ∧ e.DirectoryAt names := by
  rw [FileTree.isDir_iff]
  simp only [entry?_along_eq_some_iff h hproper, DirectoryAt, contentAt?_eq_directory_iff]
  constructor
  · rintro ⟨es, access, hvisible, hat⟩
    exact ⟨hvisible, access, es, hat⟩
  · rintro ⟨hvisible, access, es, hat⟩
    exact ⟨es, access, hvisible, hat⟩

end Entry

end OnchainSchema
