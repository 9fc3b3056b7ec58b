import OnchainSchema.Lint.Report
import OnchainSchema.Proofs.CompileErrors
import OnchainSchema.Proofs.LintedFiles

/-!
What lint says about compiling a file. Of the findings on a file as a whole, one says exactly when
it cannot be loaded and one exactly when it has no properties. The third says when it has no title,
and so misses a title that is there but blank.
-/
namespace OnchainSchema

open Fetch Compile

namespace Lint

/-- The codes of findings on a part of a document. -/
def partCodes : List String := ["E002", "E003", "E004", "W003", "W004", "W005"]

/-- A finding on a document is on a part of it, or says that it has no properties, or no title. -/
theorem mem_checkDocument_cases {t : FileTree} {dir : Path} {document : Json} {l : Located}
    (h : l ∈ checkDocument t dir document) :
    l.finding.code ∈ partCodes ∨
      l.finding = .noProperties ∧
        ((document.get? "properties").bind Json.members?).getD [] = [] ∨
      l.finding = .noTitle ∧ document.textAt? "title" = none := by
  rcases refFinding_or_warning h with ⟨node, -, hnode⟩ | hcode | hnone | hnone
  · obtain ⟨ref, -, f, hf, rfl⟩ := refFinding_eq_some_iff.mp hnode
    have hpart : ∀ code ∈ refCodes, code ∈ partCodes := by decide
    exact .inl (hpart _ (code_of_checkRef hf))
  · have hpart : ∀ code ∈ annotationCodes, code ∈ partCodes := by decide
    exact .inl (hpart _ hcode)
  · exact .inr (.inl hnone)
  · exact .inr (.inr hnone)

/-- Some finding in the file has the code. -/
def FileReport.Has (r : FileReport) (code : String) : Prop :=
  ∃ l ∈ r.findings, l.finding.code = code

instance (r : FileReport) (code : String) : Decidable (r.Has code) :=
  inferInstanceAs (Decidable (∃ l ∈ r.findings, l.finding.code = code))

variable {t : FileTree} {file : Path} {document : Json}

theorem has_of_load_error {error : LoadError} (h : t.source.load file = .error error) (base : Path)
    (code : String) : (lintFile t file base).Has code ↔ code = "E001" := by
  simp [FileReport.Has, lintFile, checkFile, h, Finding.code, eq_comm]

theorem has_iff_of_load (h : t.source.load file = .ok document) (base : Path) (code : String) :
    (lintFile t file base).Has code ↔
      ∃ l ∈ checkDocument t file.directory document, l.finding.code = code := by
  simp [FileReport.Has, lintFile, checkFile, h]

theorem not_has_notLoaded (h : t.source.load file = .ok document) (base : Path) :
    ¬ (lintFile t file base).Has "E001" := by
  rw [has_iff_of_load h]
  rintro ⟨l, hl, hcode⟩
  rcases mem_checkDocument_cases hl with hpart | ⟨hl, -⟩ | ⟨hl, -⟩
  · exact absurd (hcode ▸ hpart) (by decide)
  · simp [hl, Finding.code] at hcode
  · simp [hl, Finding.code] at hcode

theorem has_noProperties_iff (h : t.source.load file = .ok document) (base : Path) :
    (lintFile t file base).Has "W001" ↔ ¬ HasProperties document := by
  have hempty : ((document.get? "properties").bind Json.members?).getD [] = [] ↔
      ¬ HasProperties document := by
    unfold HasProperties
    cases document.get? "properties" with
    | none => simp
    | some v =>
      cases v with
      | obj ms => cases ms <;> simp [Json.members?]
      | _ => simp [Json.members?]
  rw [has_iff_of_load h, ← hempty]
  constructor
  · rintro ⟨l, hl, hcode⟩
    -- No finding on a part of the document has this code.
    rcases mem_checkDocument_cases hl with hpart | ⟨-, hnone⟩ | ⟨hl, -⟩
    · exact absurd (hcode ▸ hpart) (by decide)
    · exact hnone
    · simp [hl, Finding.code] at hcode
  · intro hnone
    refine ⟨⟨"/", .noProperties⟩, ?_, rfl⟩
    simp [checkDocument, documentFindings, hnone]

theorem has_noTitle_iff (h : t.source.load file = .ok document) (base : Path) :
    (lintFile t file base).Has "W002" ↔ document.textAt? "title" = none := by
  rw [has_iff_of_load h]
  constructor
  · rintro ⟨l, hl, hcode⟩
    rcases mem_checkDocument_cases hl with hpart | ⟨hl, -⟩ | ⟨-, hnone⟩
    · exact absurd (hcode ▸ hpart) (by decide)
    · simp [hl, Finding.code] at hcode
    · exact hnone
  · intro hnone
    refine ⟨⟨"/", .noTitle⟩, ?_, rfl⟩
    simp [checkDocument, documentFindings, hnone]

/-- The file has a title, and it is blank. -/
def BlankTitle (t : FileTree) (file : Path) : Prop :=
  ∃ document title, t.source.load file = .ok document ∧
    document.textAt? "title" = some title ∧ Text.isBlankText title

end Lint

open Lint

/-- Without a name of its own, a file is compiled exactly if lint finds that it can be loaded and
has properties and a title, and its title is not blank. -/
theorem compiles_iff_lint_finds_title {t : FileTree} {file : Path} {options : Options}
    (hname : options.name = none) (base : Path) (k : Cache) :
    (∃ c, ((compileFile file options).run t.source k).value = .ok c) ↔
      (∀ code ∈ ["E001", "W001", "W002"], ¬ (lintFile t file base).Has code) ∧
        ¬ BlankTitle t file := by
  rw [run_compileFile]
  simp only [List.forall_mem_cons, List.not_mem_nil, false_imp_iff, implies_true, and_true]
  cases hload : t.source.load file with
  | error error => simp [has_of_load_error hload]
  | ok document =>
    have hblank : BlankTitle t file ↔
        ∃ title, document.textAt? "title" = some title ∧ Text.isBlankText title := by
      simp [BlankTitle, hload]
    simp only [compile_ok_iff, Unnamed, hname, ← Json.textAt?_eq_some_iff, hblank,
      not_has_notLoaded hload, has_noProperties_iff hload, has_noTitle_iff hload]
    cases document.textAt? "title" with
    | none => simp
    | some title => simp [and_comm]

section Samples

/-- One file with a title and a score. -/
def titledTree (title score : String) : FileTree := ⟨.dir [("review.json", .file
  ("\x7b\"title\":\"" ++ title ++ "\",\"properties\":\x7b\"score\":\x7b" ++ score ++
    "\x7d\x7d\x7d").toUTF8)], []⟩

/-- A title of blanks passes lint, and the name made of it is missing. -/
theorem blank_title_not_found :
    let t := titledTree " \u3000" "\"type\":\"integer\""
    (lintFile t ⟨"review.json"⟩ ⟨"."⟩).findings = [] ∧
    ((compileFile ⟨"review.json"⟩ {}).run t.source Cache.empty).value = .error .missingName := by
  intro t
  have hblank : (t.source.load ⟨"review.json"⟩).toOption.map
      (fun document => Text.isBlankText (nameOf document {})) = some true := by
    decide +kernel
  refine ⟨by decide +kernel, ?_⟩
  rw [run_compileFile]
  cases hload : t.source.load ⟨"review.json"⟩ with
  | error error => simp [hload, Except.toOption] at hblank
  | ok document =>
    have hname : Text.isBlankText (nameOf document {}) := by
      simpa [hload, Except.toOption] using hblank
    exact compile_missingName_iff.mpr ((isBlankText_nameOf_iff document {}).mp hname)

/-- A broken reference is an error for lint, and the file is compiled all the same. -/
theorem broken_ref_compiled :
    let t := titledTree "Review" "\"$ref\":\"gone.json#/Score\""
    (lintFile t ⟨"review.json"⟩ ⟨"."⟩).findings.map (·.finding) = [.fileNotFound "gone.json"] ∧
    ∃ c, ((compileFile ⟨"review.json"⟩ {}).run t.source Cache.empty).value = .ok c := by
  intro t
  obtain ⟨hfindings, hcodes, htitle⟩ :
      (lintFile t ⟨"review.json"⟩ ⟨"."⟩).findings.map (·.finding) = [.fileNotFound "gone.json"] ∧
      (∀ code ∈ ["E001", "W001", "W002"], ¬ (lintFile t ⟨"review.json"⟩ ⟨"."⟩).Has code) ∧
      ((t.source.load ⟨"review.json"⟩).toOption.bind (Json.textAt? "title")).map
        Text.isBlankText = some false := by
    decide +kernel
  have hnotBlank : ¬ BlankTitle t ⟨"review.json"⟩ := by
    rintro ⟨document, title, hload, htext, hblank⟩
    simp [hload, htext, hblank, Except.toOption] at htitle
  exact ⟨hfindings, (compiles_iff_lint_finds_title rfl ⟨"."⟩ Cache.empty).mpr ⟨hcodes, hnotBlank⟩⟩

end Samples

end OnchainSchema
