import Mathlib
import OnchainSchema.Proofs.CompileCommand
import OnchainSchema.Proofs.ReadRecords
import OnchainSchema.Proofs.WrittenJson

/-!
Records as text. What is written for a record holds it, so writing a record and reading it again, or
reading it and writing it, loses nothing. The compile command hands out such texts.
-/
namespace OnchainSchema

open Command Json Raw

namespace Json.Raw

theorem spells_written (s : String) : (Raw.string (writtenGlyphs s)).Spells s :=
  ⟨_, rfl, decodeGlyphs_writtenGlyphs s⟩

theorem under_cons_written (key k : String) (e : Raw) (ms : List (List Glyph × Raw)) :
    under key ((writtenGlyphs k, e) :: ms) = (if k = key then [e] else []) ++ under key ms := by
  rw [under_cons, decodeGlyphs_writtenGlyphs]
  simp [String.toList_inj]

end Json.Raw

namespace Record

/-- The members that are written for a record. -/
def written (r : Record) : List (List Glyph × Raw) :=
  [(writtenGlyphs "name", .string (writtenGlyphs r.name)),
    (writtenGlyphs "schema", .string (writtenGlyphs r.schema)),
    (writtenGlyphs "revocable", .bool r.revocable)] ++
    (r.resolver.map fun a => (writtenGlyphs "resolver", .string (writtenGlyphs a))).toList

theorem under_written (r : Record) (key : String) :
    under key r.written =
      (if "name" = key then [.string (writtenGlyphs r.name)] else []) ++
      (if "schema" = key then [.string (writtenGlyphs r.schema)] else []) ++
      (if "revocable" = key then [.bool r.revocable] else []) ++
      (if "resolver" = key then (r.resolver.map fun a => .string (writtenGlyphs a)).toList
        else []) := by
  cases h : r.resolver <;> simp [written, h, under_cons_written]

theorem ofMembers_written (r : Record) : r.OfMembers r.written where
  keys := by cases h : r.resolver <;> simp [written, h, decodeGlyphs_writtenGlyphs]
  name := ⟨_, by simp [under_written], spells_written r.name⟩
  schema := ⟨_, by simp [under_written], spells_written r.schema⟩
  revocable := by simp [under_written]
  resolver := by
    have hunder := r.under_written "resolver"
    cases h : r.resolver with
    | none => exact .inl ⟨by simpa [h] using hunder, rfl⟩
    | some a => exact .inr ⟨_, by simpa [h] using hunder, spells_written a⟩

theorem readBack_toJson (l : Layout) (r : Record) :
    l.ReadBack 0 r.toJson (.object r.written) := by
  refine Layout.readBack_obj (.cons ⟨rfl, Layout.readBack_str _⟩
    (.cons ⟨rfl, Layout.readBack_str _⟩ (.cons ⟨rfl, Layout.readBack_bool _⟩ ?_)))
  cases r.resolver with
  | none => exact .nil
  | some a => exact .cons ⟨rfl, Layout.readBack_str a⟩ .nil

/-- The text of a record is an object of its members, also where blanks come after it. -/
theorem document?_write_append (l : Layout) (r : Record) {gap : String}
    (hgap : ∀ c ∈ gap.toList, Grammar.isGap c) :
    Grammar.document? (r.write l ++ gap) = some (.object r.written) :=
  Layout.document?_write_append (readBack_toJson l r) hgap

theorem document?_write (l : Layout) (r : Record) :
    Grammar.document? (r.write l) = some (.object r.written) := by
  rw [← String.append_empty (s := r.write l)]
  exact document?_write_append l r (by simp)

theorem read?_write_append (l : Layout) (r : Record) {gap : String}
    (hgap : ∀ c ∈ gap.toList, Grammar.isGap c) : read? (r.write l ++ gap) = some r :=
  read?_eq_some_iff.mpr ⟨_, document?_write_append l r hgap, .members r.ofMembers_written⟩

theorem read?_write (l : Layout) (r : Record) : read? (r.write l) = some r :=
  read?_eq_some_iff.mpr ⟨_, document?_write l r, .members r.ofMembers_written⟩

end Record

namespace CompileCommand

/-- The record stands on the output before the identifier, or in the file it was asked for, and is
read from there. -/
def DeliversRecord (c : CompileCommand) (compilation : Compilation) (a : Answer) : Prop :=
  (c.output = none ∧
    a.stdout = c.recordText compilation ++ "\n" ++ c.uidLine compilation ∧
    Record.read? (c.recordText compilation ++ "\n") = some compilation.record) ∨
  ∃ path, c.output = some path ∧
    a.tree.read path = .ok (c.recordText compilation) ∧
    Record.read? (c.recordText compilation) = some compilation.record

theorem exists_deliversRecord {c : CompileCommand} {t : FileTree}
    (h : (run t (.compile c)).exit = 0) :
    ∃ compilation, c.compiled t = .ok compilation ∧
      c.DeliversRecord compilation (run t (.compile c)) := by
  rcases run_cases c t with ⟨exit, problem, hnonzero, hrun⟩ |
    ⟨compilation, hok, ⟨hout, hrun⟩ | ⟨path, t', hout, hwrite, hrun⟩⟩
  · exact absurd ((congrArg Answer.exit hrun).symm.trans h) hnonzero
  · have hread : Record.read? (c.recordText compilation ++ "\n") = some compilation.record :=
      Record.read?_write_append _ compilation.record (by simp [Grammar.isGap])
    exact ⟨compilation, hok, .inl ⟨hout, congrArg Answer.stdout hrun, hread⟩⟩
  · have htree : (run t (.compile c)).tree = t' := congrArg Answer.tree hrun
    have hfile := FileTree.read_write hwrite
    rw [← htree] at hfile
    exact ⟨compilation, hok, .inr ⟨path, hout, hfile, Record.read?_write _ compilation.record⟩⟩

end CompileCommand

/-- A record that is written, in either layout, is read back as it was, and a resolver is among its
members exactly if the record has one. A record is read from every text that holds it and from no
other: the order of the members, members of other names and a null resolver change nothing. So what
has been read, from whatever text, survives being written. The compile command hands out such texts,
on its output or in a file. -/
theorem records_survive_text :
    (∀ (l : Layout) (r : Record), Record.read? (r.write l) = some r ∧
      ∃ ms, Grammar.document? (r.write l) = some (.object ms) ∧
        (under "resolver" ms ≠ [] ↔ r.resolver.isSome)) ∧
    (∀ (s : String) (r : Record), Record.read? s = some r ↔
      ∃ e, Grammar.document? s = some e ∧ r.HeldIn e) ∧
    (∀ (s s' : String) (ms ms' : List (List Glyph × Raw)),
      Grammar.document? s = some (.object ms) → Grammar.document? s' = some (.object ms') →
      Relation.EqvGen Record.MemberEdit ms ms' → Record.read? s' = Record.read? s) ∧
    (∀ (s : String) (r : Record), Record.read? s = some r →
      ∀ l : Layout, Record.read? (r.write l) = Record.read? s) ∧
    ∀ (c : CompileCommand) (t : FileTree), (run t (.compile c)).exit = 0 →
      ∃ compilation, c.compiled t = .ok compilation ∧
        c.DeliversRecord compilation (run t (.compile c)) := by
  refine ⟨fun l r => ⟨Record.read?_write l r, r.written, Record.document?_write l r, ?_⟩,
    fun _ _ => Record.read?_eq_some_iff, fun _ _ _ _ => Record.read?_eq_of_edits,
    fun s r h l => (Record.read?_write l r).trans h.symm,
    fun _ _ => CompileCommand.exists_deliversRecord⟩
  rw [Record.under_written]
  cases r.resolver <;> simp

section Samples

open CompileCommand

def quotedScore : Record := ⟨"Score\x01", "string \"né\"", true, none⟩

/-- The members the other way round, with a null and a member of another name before them. -/
def shuffledScore : List (List Glyph × Raw) :=
  (writtenGlyphs "resolver", .null) ::
    (writtenGlyphs "name ", .array [.number ⟨false, [1], [5], none⟩, .object []]) ::
    quotedScore.written.reverse

def shuffledScoreText : String :=
  "\x7b \"resolver\" : null, \"name \" : [1.5, \x7b\x7d],\n\t\"revocable\" : true,\n\t" ++
    "\"schema\" : \"string \\\"né\\\"\", \"name\" : \"Score\\u0001\" \x7d\n"

/-- The shuffled text is read as the record, whose own text is another. The record that a command
has written to a file is read from the file. -/
theorem shuffled_score_survives :
    Grammar.document? shuffledScoreText = some (.object shuffledScore) ∧
    Relation.EqvGen Record.MemberEdit quotedScore.written shuffledScore ∧
    Record.read? shuffledScoreText = some quotedScore ∧
    (∀ l : Layout, Record.read? (quotedScore.write l) = Record.read? shuffledScoreText) ∧
    (run recordedTree (.compile (reviewCommand none))).exit = 0 ∧
    ∃ text, (run recordedTree (.compile (reviewCommand none))).tree.read ⟨"record.json"⟩ =
        .ok text ∧
      Record.read? text = some ⟨"Review", "uint256 score", true, none⟩ := by
  have hshuffled : Grammar.document? shuffledScoreText = some (.object shuffledScore) := by cbv
  have hedits : Relation.EqvGen Record.MemberEdit quotedScore.written shuffledScore := by
    refine .trans _ _ _ (.rel _ _ (.order (List.reverse_perm _).symm))
      (.trans _ _ _ (.rel _ _ (.other _ (decodeGlyphs_writtenGlyphs "name ") (by decide)))
        (.rel _ _ (.null (decodeGlyphs_writtenGlyphs "resolver") ?_)))
    simp [Record.written, quotedScore, under_cons_written]
  have hexit : (run recordedTree (.compile (reviewCommand none))).exit = 0 := by decide +kernel
  have hrecord : ((reviewCommand none).compiled recordedTree).toOption.map (·.record) =
      some ⟨"Review", "uint256 score", true, none⟩ := by decide +kernel
  obtain ⟨-, -, hsame, hagain, hcommand⟩ := records_survive_text
  have hread : Record.read? shuffledScoreText = some quotedScore :=
    (hsame _ _ _ _ (Record.document?_write .compact quotedScore) hshuffled hedits).trans
      (Record.read?_write .compact quotedScore)
  refine ⟨hshuffled, hedits, hread, hagain _ _ hread, hexit, ?_⟩
  obtain ⟨compilation, hok, ⟨hnone, -⟩ | ⟨path, hout, hfile, htext⟩⟩ := hcommand _ _ hexit
  · cases hnone
  · cases hout
    rw [hok] at hrecord
    exact ⟨_, hfile, htext.trans hrecord⟩

end Samples

end OnchainSchema
