import OnchainSchema.Lint.Report

/-!
Paths that are text. From a path and names that are text, lint forms only paths that are text, and it
can write its report on them.
-/
namespace OnchainSchema

namespace OsText

theorem isText_ofString (text : String) : (ofString text).isText = true := isText_iff.mpr ⟨text, rfl⟩

theorem isText_append {s t : OsText} (hs : s.isText = true) (ht : t.isText = true) :
    (s ++ t).isText = true := by
  obtain ⟨s, rfl⟩ := isText_iff.mp hs
  obtain ⟨t, rfl⟩ := isText_iff.mp ht
  exact isText_iff.mpr ⟨s ++ t, congrArg mk (Text.bytes_append s t).symm⟩

theorem isText_join {parts : List OsText} (h : ∀ s ∈ parts, s.isText = true) :
    (join Path.slash parts).isText = true := by
  induction parts with
  | nil => exact isText_ofString ""
  | cons s parts ih =>
    obtain ⟨hs, hparts⟩ := List.forall_mem_cons.mp h
    cases parts with
    | nil => rwa [join, List.map_singleton, List.intercalate_singleton]
    | cons t parts =>
      have hjoin : join Path.slash (s :: t :: parts) =
          s ++ OsText.ofString "/" ++ join Path.slash (t :: parts) := by
        rw [join, List.map_cons, List.map_cons, List.intercalate_cons_cons]
        rfl
      rw [hjoin]
      exact isText_append (isText_append hs (isText_ofString "/")) (ih hparts)

end OsText

namespace Path

theorem isText_join {base : Path} {name : OsText} (hbase : base.raw.isText = true)
    (hname : name.isText = true) : (base.join name).raw.isText = true := by
  rw [join]
  split
  · exact hname
  · split
    · exact OsText.isText_append hbase hname
    · exact OsText.isText_append (OsText.isText_append hbase (OsText.isText_ofString "/")) hname

end Path

namespace Entry

mutual
/-- All names at an entry and below it are text. -/
def hasTextNames : Entry → Bool
  | .file _ _ => true
  | .dir entries _ => areTextNamed entries
def areTextNamed : List (OsText × Entry) → Bool
  | [] => true
  | (name, e) :: rest => name.isText && e.hasTextNames && areTextNamed rest
end

end Entry

namespace Lint

variable {t : FileTree}

mutual
theorem isText_of_mem_filesAt {path p : Path} (hpath : path.raw.isText = true) :
    (e : Entry) → e.hasTextNames = true → p ∈ filesAt t path e → p.raw.isText = true
  | .file _ _, _, hp => by
    rw [filesAt] at hp
    split at hp
    · rwa [List.mem_singleton.mp hp]
    · cases hp
  | .dir es _, he, hp => by
    rw [filesAt] at hp
    split at hp
    · split at hp
      · exact isText_of_mem_filesIn hpath es he hp
      · cases hp
    · split at hp
      · rwa [List.mem_singleton.mp hp]
      · cases hp
theorem isText_of_mem_filesIn {dir p : Path} (hdir : dir.raw.isText = true) :
    (es : List (OsText × Entry)) → Entry.areTextNamed es = true → p ∈ filesIn t dir es →
      p.raw.isText = true
  | [], _, hp => by cases hp
  | (name, e) :: rest, hes, hp => by
    rw [Entry.areTextNamed, Bool.and_eq_true, Bool.and_eq_true] at hes
    obtain ⟨⟨hname, he⟩, hrest⟩ := hes
    rw [filesIn, List.mem_append] at hp
    rcases hp with hp | hp
    · exact isText_of_mem_filesAt (Path.isText_join hdir hname) e he hp
    · exact isText_of_mem_filesIn hdir rest hrest hp
end

variable {path p : Path}

end Lint

end OnchainSchema
