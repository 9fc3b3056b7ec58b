import OnchainSchema.Lint.Report
import OnchainSchema.Proofs.PathOrder
import OnchainSchema.Proofs.WrittenFiles

/-!
Trees and the order in which their directories are listed. The order shows at no place of a tree,
and so in nothing that is looked up or read by path.
-/
namespace OnchainSchema

theorem Members.get?_perm {κ α : Type} [DecidableEq κ] {ms ms' : List (κ × α)} (h : ms.Perm ms')
    (hkeys : (Members.keys ms).Nodup) (k : κ) : Members.get? k ms = Members.get? k ms' := by
  have hkeys' : (Members.keys ms').Nodup := (h.map Prod.fst).nodup hkeys
  refine Option.ext fun v => ?_
  rw [← Members.mem_iff_get?_eq_some hkeys, ← Members.mem_iff_get?_eq_some hkeys', h.mem_iff]

namespace Entry

/-- What holds of files, and of a directory if it holds of its entries, holds of any entry. -/
theorem induction {motive : Entry → Prop} (file : ∀ bytes access, motive (.file bytes access))
    (dir : ∀ es access, (∀ c ∈ es, motive c.2) → motive (.dir es access)) : (e : Entry) → motive e
  | .file bytes access => file bytes access
  | .dir es access => dir es access fun c hc =>
    have : sizeOf c.2 < 1 + sizeOf es := by
      have hmem := List.sizeOf_lt_of_mem hc
      have hchild : sizeOf c = 1 + sizeOf c.1 + sizeOf c.2 := rfl
      omega
    induction file dir c.2
termination_by e => sizeOf e

variable {e e' : Entry} {es es' : List (OsText × Entry)} {access : DirAccess} {place : List OsText}

theorem at?_append (e : Entry) (place names : List OsText) :
    e.at? (place ++ names) = (e.at? place).bind (·.at? names) := by
  induction place generalizing e with
  | nil => rfl
  | cons n place ih =>
    cases e with
    | file bytes access => rfl
    | dir es access =>
      rw [List.cons_append, at?, at?]
      cases Members.get? n es with
      | none => rfl
      | some child => exact ih child

/-- Only below a directory can there be something. -/
theorem directoryAt_of_below {way rest : List OsText} {n : OsText}
    (h : (e.at? (way ++ n :: rest)).isSome) : e.DirectoryAt way := by
  rw [at?_append] at h
  cases hat : e.at? way with
  | none => rw [hat] at h; cases h
  | some found =>
    rw [hat] at h
    cases found with
    | file bytes access => cases h
    | dir es access => exact ⟨access, contentAt?_eq_directory_iff.mpr ⟨es, hat⟩⟩

theorem isSome_at?_of_directoryAt (h : e.DirectoryAt place) : (e.at? place).isSome := by
  obtain ⟨access, h⟩ := h
  obtain ⟨es, hes⟩ := contentAt?_eq_directory_iff.mp h
  rw [hes]
  rfl

/-- Where the contents at a place are the same, there is nothing, the same file, or a directory with
which the same is allowed. -/
theorem at?_cases (h : e.contentAt? place = e'.contentAt? place) :
    (e.at? place = none ∧ e'.at? place = none) ∨
      (∃ bytes access, e.at? place = some (.file bytes access) ∧
        e'.at? place = some (.file bytes access)) ∨
      ∃ es es' access, e.at? place = some (.dir es access) ∧
        e'.at? place = some (.dir es' access) := by
  rw [contentAt?, contentAt?] at h
  cases hfound : e.at? place with
  | none =>
    rw [hfound] at h
    exact .inl ⟨rfl, Option.map_eq_none_iff.mp h.symm⟩
  | some found =>
    rw [hfound] at h
    obtain ⟨found', hfound', hcontent⟩ := Option.map_eq_some_iff.mp h.symm
    cases found with
    | file bytes access =>
      cases found' with
      | file bytes' access' =>
        cases hcontent
        exact .inr (.inl ⟨bytes, access, rfl, hfound'⟩)
      | dir es' access' => cases hcontent
    | dir es access =>
      cases found' with
      | file bytes' access' => cases hcontent
      | dir es' access' =>
        cases hcontent
        exact .inr (.inr ⟨es, es', access, rfl, hfound'⟩)

/-- In no directory a name is used twice, and all are names that an entry can have. -/
def WellNamed (e : Entry) : Prop :=
  ∀ place es access, e.at? place = some (.dir es access) →
    (Members.keys es).Nodup ∧ ∀ name ∈ Members.keys es, Path.ProperName name

theorem WellNamed.nodup (h : (Entry.dir es access).WellNamed) : (Members.keys es).Nodup :=
  (h [] es access rfl).1

theorem WellNamed.at? (h : e.WellNamed) (he : e.at? place = some e') :
    e'.WellNamed := by
  intro names es access hnames
  refine h (place ++ names) es access ?_
  rw [at?_append, he]
  exact hnames

theorem WellNamed.child (h : (Entry.dir es access).WellNamed) {name : OsText} (hc : (name, e) ∈ es) :
    e.WellNamed := by
  have hat : (Entry.dir es access).at? [name] = some e := by
    rw [Entry.at?, (Members.mem_iff_get?_eq_some h.nodup).mp hc]
    rfl
  exact h.at? hat

theorem wellNamed_file (bytes : ByteArray) (access : FileAccess) :
    (Entry.file bytes access).WellNamed := by
  intro place es access h
  cases place <;> cases h

theorem wellNamed_dir (hkeys : (Members.keys es).Nodup)
    (hproper : ∀ name ∈ Members.keys es, Path.ProperName name)
    (hbelow : ∀ c ∈ es, c.2.WellNamed) : (Entry.dir es access).WellNamed := by
  intro place ls access' h
  cases place with
  | nil =>
    cases h
    exact ⟨hkeys, hproper⟩
  | cons n names =>
    obtain ⟨child, hchild, hls⟩ := Option.bind_eq_some_iff.mp h
    exact hbelow _ (Members.mem_of_get?_eq_some hchild) names ls access' hls

/-- What leads to an entry are names that an entry can have. -/
theorem WellNamed.properName (h : e.WellNamed) {names : List OsText}
    (he : (e.at? names).isSome) : ∀ name ∈ names, Path.ProperName name := by
  induction names generalizing e with
  | nil => simp
  | cons n names ih =>
    cases e with
    | file bytes access => cases he
    | dir es access =>
      rw [Entry.at?] at he
      cases hget : Members.get? n es with
      | none => rw [hget] at he; cases he
      | some child =>
        rw [hget] at he
        have hmem := Members.mem_of_get?_eq_some hget
        rw [List.forall_mem_cons]
        exact ⟨(h [] es access rfl).2 n (List.mem_map_of_mem hmem), ih (h.child hmem) he⟩

/-- The same tree with its directories listed in other orders: one that is there, or one after the
other. -/
inductive Relisted : Entry → Entry → Prop
  | refl (e : Entry) : Relisted e e
  | reorder {es es' : List (OsText × Entry)} {access : DirAccess} (h : es.Perm es') :
      Relisted (.dir es access) (.dir es' access)
  | inside {before after : List (OsText × Entry)} {name : OsText} {e e' : Entry} {access : DirAccess}
      (h : Relisted e e') :
      Relisted (.dir (before ++ (name, e) :: after) access)
        (.dir (before ++ (name, e') :: after) access)
  | trans {e e' e'' : Entry} (h : Relisted e e') (h' : Relisted e' e'') : Relisted e e''

theorem Relisted.wellNamed (h : Relisted e e') (he : e.WellNamed) : e'.WellNamed := by
  induction h with
  | refl e => exact he
  | @reorder es es' access hperm =>
    have hkeys : (Members.keys es).Perm (Members.keys es') := hperm.map Prod.fst
    obtain ⟨hnodup, hproper⟩ := he [] es access rfl
    refine wellNamed_dir (hkeys.nodup hnodup) (fun name hname => ?_) (fun c hc => ?_)
    · exact hproper name (hkeys.mem_iff.mpr hname)
    · exact he.child (hperm.mem_iff.mpr hc)
  | @inside before after name e e' access _ ih =>
    have hkeys : Members.keys (before ++ (name, e') :: after) =
        Members.keys (before ++ (name, e) :: after) := by simp [Members.keys]
    obtain ⟨hnodup, hproper⟩ := he [] _ access rfl
    rw [← hkeys] at hnodup hproper
    refine wellNamed_dir hnodup hproper fun c hc => ?_
    rcases List.mem_append.mp hc with hc | hc
    · exact he.child (List.mem_append_left _ hc)
    · rcases List.mem_cons.mp hc with rfl | hc
      · exact ih (he.child (List.mem_append_right _ (List.mem_cons_self ..)))
      · exact he.child (List.mem_append_right _ (List.mem_cons_of_mem _ hc))
  | trans _ _ ih ih' => exact ih' (ih he)

/-- A listing order shows at no place. -/
theorem Relisted.contentAt?_eq (h : Relisted e e') (he : e.WellNamed) (place : List OsText) :
    e.contentAt? place = e'.contentAt? place := by
  induction h generalizing place with
  | refl e => rfl
  | @reorder es es' access hperm =>
    cases place with
    | nil => simp [content]
    | cons n names => simp [Members.get?_perm hperm he.nodup n]
  | @inside before after name e e' access _ ih =>
    have hchild := ih (he.child (List.mem_append_right _ (List.mem_cons_self ..)))
    cases place with
    | nil => simp [content]
    | cons n names =>
      rw [contentAt?_dir_cons, contentAt?_dir_cons, Members.get?_append, Members.get?_append]
      cases Members.get? n before with
      | some child => rfl
      | none => by_cases hn : name = n <;> simp [Members.get?, hn, hchild]
  | trans h _ ih ih' => exact (ih he place).trans (ih' (h.wellNamed he) place)

end Entry

namespace FileTree

open Entry

/-- A walk looks at the contents of places and nothing else. -/
theorem walk_congr {root root' : Entry}
    (h : ∀ place, root.contentAt? place = root'.contentAt? place) (place ss : List OsText) :
    walk root place ss = walk root' place ss := by
  induction ss generalizing place with
  | nil => rw [walk, walk]
  | cons s ss ih =>
    rw [walk, walk]
    rcases at?_cases (h place) with
      ⟨hat, hat'⟩ | ⟨bytes, access, hat, hat'⟩ | ⟨es, es', access, hat, hat'⟩ <;>
      simp only [hat, hat', ih]

section SameContents

variable {t t' : FileTree} (hcwd : t'.cwd = t.cwd)
  (h : ∀ place, t.content? place = t'.content? place)

include hcwd h

theorem locate_congr (p : Path) : t.locate p = t'.locate p := by
  rw [locate, locate, start, start, hcwd]
  cases pathFault? p with
  | some fault => rfl
  | none => exact walk_congr h _ _

theorem has_congr (p : Path) : t.has p = t'.has p := by
  rw [has, has, entry?, entry?, locate_congr hcwd h]
  cases t'.locate p with
  | error fault => rfl
  | ok place =>
    rcases at?_cases (h place) with
      ⟨hat, hat'⟩ | ⟨bytes, access, hat, hat'⟩ | ⟨es, es', access, hat, hat'⟩ <;>
      simp only [hat, hat', Option.isSome_some]

theorem read_congr (p : Path) : t.read p = t'.read p := by
  rw [read, read, locate_congr hcwd h]
  cases t'.locate p with
  | error fault => rfl
  | ok place =>
    rcases at?_cases (h place) with
      ⟨hat, hat'⟩ | ⟨bytes, access, hat, hat'⟩ | ⟨es, es', access, hat, hat'⟩ <;>
      simp only [hat, hat']

theorem source_congr : t.source = t'.source := by
  rw [source, source, Source.mk.injEq]
  exact ⟨funext (has_congr hcwd h), funext (read_congr hcwd h)⟩

end SameContents

end FileTree

namespace Lint

/-- A file is checked by what its tree has to load. -/
theorem lintFile_congr {t t' : FileTree} (h : t.source = t'.source) (file base : Path) :
    lintFile t file base = lintFile t' file base := by
  have hhas : t.has = t'.has := congrArg Source.has h
  have hrefs (dir : Path) (document : Json) :
      refFinding t dir document = refFinding t' dir document := by
    funext node
    have hcheck (ref : String) : checkRef t dir document ref = checkRef t' dir document ref := by
      rw [checkRef, checkRef, hhas, h]
    simp only [refFinding, hcheck]
  simp only [lintFile, checkFile, checkDocument, hrefs, h]

end Lint

end OnchainSchema
