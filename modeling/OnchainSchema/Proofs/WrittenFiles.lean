import OnchainSchema.FileTree

/-!
Writing a file. The file that is written holds the text afterwards, and at every other place of the
tree there is what was there before.
-/
namespace OnchainSchema

namespace Entry

/-- What an entry is by itself, without what is below it. -/
inductive Content where
  | directory (access : DirAccess)
  | file (bytes : ByteArray) (access : FileAccess)

def content : Entry → Content
  | .file bytes access => .file bytes access
  | .dir _ access => .directory access

/-- What stands at the end of a chain of names. -/
def contentAt? (e : Entry) (place : List OsText) : Option Content := (e.at? place).map content

/-- A directory stands at the end of a chain of names. -/
def DirectoryAt (e : Entry) (place : List OsText) : Prop :=
  ∃ access, e.contentAt? place = some (.directory access)

@[simp] theorem contentAt?_nil (e : Entry) : e.contentAt? [] = some e.content := by
  cases e <;> rfl

@[simp] theorem contentAt?_file_cons (bytes : ByteArray) (access : FileAccess) (n : OsText)
    (ns : List OsText) : (Entry.file bytes access).contentAt? (n :: ns) = none := rfl

@[simp] theorem contentAt?_dir_cons (es : List (OsText × Entry)) (access : DirAccess) (n : OsText)
    (ns : List OsText) :
    (Entry.dir es access).contentAt? (n :: ns) = (Members.get? n es).bind (·.contentAt? ns) := by
  rw [contentAt?, at?]
  cases Members.get? n es <;> rfl

theorem exists_dir_of_content {e : Entry} {access : DirAccess} (h : e.content = .directory access) :
    ∃ es, e = .dir es access := by
  cases e with
  | file bytes access => cases h
  | dir es access' =>
    cases h
    exact ⟨es, rfl⟩

theorem contentAt?_eq_directory_iff {e : Entry} {place : List OsText} {access : DirAccess} :
    e.contentAt? place = some (.directory access) ↔ ∃ es, e.at? place = some (.dir es access) := by
  constructor
  · intro h
    obtain ⟨found, hfound, hcontent⟩ := Option.map_eq_some_iff.1 h
    obtain ⟨es, rfl⟩ := exists_dir_of_content hcontent
    exact ⟨es, hfound⟩
  · rintro ⟨es, hfound⟩
    rw [contentAt?, hfound]
    rfl

/-- Only in a directory can there be something. -/
theorem exists_dir_of_contentAt?_cons {e : Entry} {n : OsText} {ns : List OsText} {x : Content}
    (h : e.contentAt? (n :: ns) = some x) :
    ∃ es access child, e = .dir es access ∧ Members.get? n es = some child ∧
      child.contentAt? ns = some x := by
  cases e with
  | file bytes access => cases h
  | dir es access =>
    rw [contentAt?_dir_cons, Option.bind_eq_some_iff] at h
    obtain ⟨child, hchild, hx⟩ := h
    exact ⟨es, access, child, rfl, hchild, hx⟩

/-- What a directory stands in is a directory. -/
theorem DirectoryAt.dropLast {e : Entry} {place : List OsText} (h : e.DirectoryAt place) :
    e.DirectoryAt place.dropLast := by
  obtain ⟨access, h⟩ := h
  induction place generalizing e with
  | nil => exact ⟨access, h⟩
  | cons n ns ih =>
    obtain ⟨es, outer, child, rfl, hchild, hrest⟩ := exists_dir_of_contentAt?_cons h
    cases ns with
    | nil => exact ⟨outer, rfl⟩
    | cons m ms =>
      rw [List.dropLast_cons_cons, DirectoryAt, contentAt?_dir_cons, hchild]
      exact ih hrest

/-- A file is put into a directory. Nothing else comes, goes or changes, as long as the file does
not take the place of a directory. -/
theorem contentAt?_place_file {e : Entry} {dir : List OsText} {name : OsText}
    (hdir : e.DirectoryAt dir) (hfree : ¬ e.DirectoryAt (dir ++ [name])) (bytes : ByteArray)
    (other : List OsText) :
    (place (.file bytes) (dir ++ [name]) e).contentAt? other =
      if other = dir ++ [name] then some (.file bytes .free) else e.contentAt? other := by
  obtain ⟨access, hdir⟩ := hdir
  induction dir generalizing e other with
  | nil =>
    obtain ⟨es, rfl⟩ := exists_dir_of_content (Option.some.inj ((contentAt?_nil e).symm.trans hdir))
    rw [List.nil_append, place]
    cases other with
    | nil => rfl
    | cons n ns =>
      rw [contentAt?_dir_cons, contentAt?_dir_cons, Members.get?_put]
      by_cases hn : name = n
      · subst hn
        rw [if_pos rfl]
        cases ns with
        | nil => simp [place, content]
        | cons m ms =>
          -- Below a file there is nothing, and there was none: the name was free or a file's.
          rw [List.nil_append, DirectoryAt, contentAt?_dir_cons] at hfree
          cases hold : Members.get? name es with
          | none => simp [place]
          | some child =>
            rw [hold] at hfree
            cases child with
            | file old oldAccess => simp [place]
            | dir below inner => exact absurd ⟨inner, rfl⟩ hfree
      · simp [hn, Ne.symm hn]
  | cons d ds ih =>
    obtain ⟨es, outer, child, rfl, hchild, hdir'⟩ := exists_dir_of_contentAt?_cons hdir
    rw [List.cons_append, DirectoryAt, contentAt?_dir_cons, hchild] at hfree
    rw [List.cons_append, place, hchild]
    cases other with
    | nil => rfl
    | cons n ns =>
      rw [contentAt?_dir_cons, contentAt?_dir_cons, Members.get?_put]
      by_cases hn : d = n
      · subst hn
        rw [if_pos rfl, hchild]
        have hbelow := ih hfree ns hdir'
        simpa using hbelow
      · simp [hn, Ne.symm hn]

end Entry

namespace FileTree

open Entry

/-- What stands at a place of the tree: a file with its bytes, a directory, or nothing. -/
def content? (t : FileTree) (place : List OsText) : Option Content := t.root.contentAt? place

/-- A path is walked segment by segment. -/
theorem walk_append (root : Entry) (place ss ss' : List OsText) :
    walk root place (ss ++ ss') = (walk root place ss).bind (walk root · ss') := by
  fun_induction walk root place ss with
  | case1 place => rfl
  | case2 place s ss hnone => simp only [List.cons_append, walk, hnone, Except.bind]
  | case3 place s ss bytes access hfile => simp only [List.cons_append, walk, hfile, Except.bind]
  | case4 place s ss es access hdir hclosed =>
    rw [List.cons_append, walk, hdir]
    exact if_pos hclosed
  | case5 place s ss es access hdir hopen hhere ih =>
    simp only [List.cons_append, walk, hdir, hopen, hhere, ih]; rfl
  | case6 place ss es access hdir hopen hhere ih =>
    simp only [List.cons_append, walk, hdir, hopen, hhere, ih]; rfl
  | case7 place s ss es access hdir hopen hhere hup hlong =>
    simp only [List.cons_append, walk, hdir, hopen, hhere, hup, hlong]; rfl
  | case8 place s ss es access hdir hopen hhere hup hlong ih =>
    simp only [List.cons_append, walk, hdir, hopen, hhere, hup, hlong, ih]; rfl

/-- One more segment: it is looked up in a directory, stays there, leaves it or names an entry. -/
theorem walk_singleton {root : Entry} {place next : List OsText} {s : OsText}
    (h : walk root place [s] = .ok next) :
    root.DirectoryAt place ∧ (next = place ∨ next = place.dropLast ∨ next = place ++ [s]) := by
  rw [walk] at h
  cases hat : root.at? place with
  | none => rw [hat] at h; cases h
  | some e =>
    rw [hat] at h
    cases e with
    | file bytes access => cases h
    | dir es access =>
      refine ⟨⟨access, contentAt?_eq_directory_iff.2 ⟨es, hat⟩⟩, ?_⟩
      dsimp only at h
      split at h
      · cases h
      split at h
      · exact .inl (Except.ok.inj h).symm
      split at h
      · exact .inr (.inl (Except.ok.inj h).symm)
      split at h
      · cases h
      · exact .inr (.inr (Except.ok.inj h).symm)

/-- A walk sees directories only, and of these what is allowed with them. -/
theorem walk_of_directories {root root' : Entry}
    (hdirs : ∀ place access, root.contentAt? place = some (.directory access) →
      root'.contentAt? place = some (.directory access))
    {place ss next : List OsText} (h : walk root place ss = .ok next) :
    walk root' place ss = .ok next := by
  have hkept : ∀ {place es access}, root.at? place = some (.dir es access) →
      ∃ es', root'.at? place = some (.dir es' access) := fun hdir =>
    contentAt?_eq_directory_iff.1 (hdirs _ _ (contentAt?_eq_directory_iff.2 ⟨_, hdir⟩))
  fun_induction walk root place ss with
  | case1 place => exact h
  | case2 | case3 | case4 | case7 => cases h
  | case5 place s ss es access hdir hopen hhere ih =>
    obtain ⟨es', hdir'⟩ := hkept hdir
    rw [walk, hdir']
    simpa only [hopen, hhere, if_true, if_false] using ih h
  | case6 place ss es access hdir hopen hhere ih =>
    obtain ⟨es', hdir'⟩ := hkept hdir
    rw [walk, hdir']
    simpa only [hopen, hhere, if_true, if_false] using ih h
  | case8 place s ss es access hdir hopen hhere hup hlong ih =>
    obtain ⟨es', hdir'⟩ := hkept hdir
    rw [walk, hdir']
    simpa only [hopen, hhere, hup, hlong, if_false] using ih h

theorem start_ne_nil (t : FileTree) (p : Path) : (t.start p).2 ≠ [] := by
  rw [start]
  split
  · rename_i habsolute
    rw [Path.isAbsolute, decide_eq_true_eq] at habsolute
    obtain ⟨bs, hbs⟩ := List.head?_eq_some_iff.1 habsolute
    have htail : p.segments.drop 1 = (Text.pieces (· == Path.slash) bs).map OsText.mk := by
      rw [Path.segments, OsText.split, hbs]
      simp [Text.pieces]
    rw [htail, ne_eq, List.map_eq_nil_iff]
    exact Text.pieces_ne_nil _ _
  · exact OsText.split_ne_nil _ _

/-- A walk that does not end in a directory ends at a name in one. -/
theorem walk_to_name {root : Entry} {from_ ss place : List OsText} (hss : ss ≠ [])
    (h : walk root from_ ss = .ok place) (hplace : ¬ root.DirectoryAt place) :
    ∃ dir name, place = dir ++ [name] ∧ root.DirectoryAt dir := by
  rw [← List.dropLast_concat_getLast hss, walk_append] at h
  cases hinit : walk root from_ ss.dropLast with
  | error fault => rw [hinit] at h; cases h
  | ok dir =>
    rw [hinit] at h
    -- Where the last segment names nothing, the walk ends in a directory.
    obtain ⟨hdir, rfl | rfl | rfl⟩ := walk_singleton h
    · exact absurd hdir hplace
    · exact absurd hdir.dropLast hplace
    · exact ⟨dir, _, rfl, hdir⟩

theorem locate_of_directories {t t' : FileTree} (hcwd : t'.cwd = t.cwd)
    (hdirs : ∀ place access, t.content? place = some (.directory access) →
      t'.content? place = some (.directory access))
    {p : Path} {place : List OsText} (h : t.locate p = .ok place) : t'.locate p = .ok place := by
  unfold locate at h ⊢
  cases hfault : pathFault? p with
  | some fault => rw [hfault] at h; cases h
  | none =>
    rw [hfault] at h
    have hstart : t'.start p = t.start p := by rw [start, start, hcwd]
    rw [hstart]
    exact walk_of_directories hdirs h

/-- What a write finds and what it does. -/
theorem write_eq_ok {t t' : FileTree} {p : Path} {text : String} (h : t.write p text = .ok t') :
    ∃ dir name, t.locate p = .ok (dir ++ [name]) ∧ t.root.DirectoryAt dir ∧
      ¬ t.root.DirectoryAt (dir ++ [name]) ∧
      t' = { t with root := Entry.place (.file text.toUTF8) (dir ++ [name]) t.root } := by
  unfold write at h
  cases hfault : pathFault? p with
  | some fault => rw [hfault] at h; cases h
  | none =>
    rw [hfault] at h
    dsimp only at h
    split at h
    · cases hwalk : walk t.root (t.start p).1 (t.start p).2 with
      | error fault => rw [hwalk] at h; cases h
      | ok place =>
        rw [hwalk] at h
        have hlocate : t.locate p = .ok place := by rw [locate, hfault]; exact hwalk
        dsimp only at h
        split at h
        · cases h
        · rename_i hwritable
          have hfree : ¬ t.root.DirectoryAt place := by
            rintro ⟨access, hdir⟩
            obtain ⟨es, hes⟩ := contentAt?_eq_directory_iff.1 hdir
            rw [writeFault?, hes] at hwritable
            cases hwritable
          obtain ⟨dir, name, rfl, hdir⟩ := walk_to_name (start_ne_nil t p) hwalk hfree
          exact ⟨dir, name, hlocate, hdir, hfree, (Except.ok.inj h).symm⟩
    -- A path that ends in a slash is refused, whatever it leads to.
    · split at h <;> cases h

/-- The whole effect of a write: the path leads where it led before, and there the file stands with
the text. All other places of the tree are as they were. -/
theorem write_effect {t t' : FileTree} {p : Path} {text : String} (h : t.write p text = .ok t') :
    t'.cwd = t.cwd ∧ ∃ place, t.locate p = .ok place ∧ t'.locate p = .ok place ∧
      ∀ other, t'.content? other =
        if other = place then some (.file text.toUTF8 .free) else t.content? other := by
  obtain ⟨dir, name, hlocate, hdir, hfree, hwritten⟩ := write_eq_ok h
  have hcwd : t'.cwd = t.cwd := by rw [hwritten]
  have hcontent : ∀ other, t'.content? other =
      if other = dir ++ [name] then some (.file text.toUTF8 .free) else t.content? other := by
    rw [hwritten]
    exact contentAt?_place_file hdir hfree text.toUTF8
  refine ⟨hcwd, dir ++ [name], hlocate, ?_, hcontent⟩
  refine locate_of_directories hcwd (fun place access hplace => ?_) hlocate
  have hne : place ≠ dir ++ [name] := fun heq => hfree ⟨access, heq ▸ hplace⟩
  rw [hcontent, if_neg hne, hplace]

/-- What has been written can be read. -/
theorem read_write {t t' : FileTree} {p : Path} {text : String} (h : t.write p text = .ok t') :
    t'.read p = .ok text := by
  obtain ⟨-, place, -, hlocate, hcontent⟩ := write_effect h
  have hplace := hcontent place
  rw [if_pos rfl] at hplace
  obtain ⟨e, he, hfile⟩ := Option.map_eq_some_iff.1 hplace
  cases e with
  | dir es access => cases hfile
  | file bytes access =>
    cases hfile
    rw [read, hlocate]
    dsimp only
    rw [he]
    have htext : String.fromUTF8? text.toUTF8 = some text := Text.fromUTF8?_eq_some_iff.mpr rfl
    dsimp only
    rw [if_neg (by decide), htext]

end FileTree

end OnchainSchema
