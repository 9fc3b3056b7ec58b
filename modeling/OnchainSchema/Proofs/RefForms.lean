import Mathlib.Data.List.DropRight
import OnchainSchema.Proofs.Compilation
import OnchainSchema.Proofs.LintedFiles

/-!
The forms of references. A reference is refused for its form exactly if it does not begin with `#/`
and names no file. One that names a file is not held to any form beyond that, and its fragment is
read as if it began with `#/`.
-/
namespace OnchainSchema

open Fetch Lint

namespace Ref

/-- A pointer that begins with `#/`, or a file and such a pointer. -/
def WellFormed (ref : String) : Prop :=
  (∃ rest, ref = "#/" ++ rest) ∨
    ∃ file rest, file ≠ "" ∧ '#' ∉ file.toList ∧ ref = file ++ "#/" ++ rest

/-- Something stands before the first number sign. -/
def NamesFile (ref : String) : Prop :=
  ∃ file rest, file ≠ "" ∧ '#' ∉ file.toList ∧ ref = file ++ "#" ++ rest

variable {ref file fragment : String}

theorem cutBefore_append (hfree : '#' ∉ file.toList) (rest : String) :
    Text.cutBefore '#' (file ++ "#" ++ rest) = (file, "#" ++ rest) :=
  Text.cutBefore_eq_iff.mpr ⟨String.append_assoc, hfree, by simp⟩

theorem append_slash (file rest : String) : file ++ "#/" ++ rest = file ++ "#" ++ ("/" ++ rest) := by
  rw [← String.toList_inj]
  simp

theorem wellFormed_iff_cut :
    WellFormed ref ↔ Text.startsWith "#/" (Text.cutBefore '#' ref).2 := by
  constructor
  · rintro (⟨rest, rfl⟩ | ⟨file, rest, -, hfree, rfl⟩)
    · have hcut := cutBefore_append (by decide : '#' ∉ "".toList) ("/" ++ rest)
      rw [← append_slash, String.empty_append] at hcut
      rw [hcut]
      exact Text.startsWith_iff.mpr ⟨rest, by rw [← String.toList_inj]; simp⟩
    · rw [append_slash, cutBefore_append hfree]
      exact Text.startsWith_iff.mpr ⟨rest, by rw [← String.toList_inj]; simp⟩
  · intro h
    cases hcut : Text.cutBefore '#' ref with
    | mk file fragment =>
      obtain ⟨href, hfree, -⟩ := Text.cutBefore_eq_iff.mp hcut
      rw [hcut] at h
      obtain ⟨rest, hrest⟩ := Text.startsWith_iff.mp h
      dsimp only at hrest
      rw [href, hrest]
      by_cases hfile : file = ""
      · exact .inl ⟨rest, by rw [hfile, String.empty_append]⟩
      · exact .inr ⟨file, rest, hfile, hfree, String.append_assoc.symm⟩

theorem namesFile_iff_cut :
    NamesFile ref ↔ (Text.cutBefore '#' ref).1 ≠ "" ∧ (Text.cutBefore '#' ref).2 ≠ "" := by
  constructor
  · rintro ⟨file, rest, hfile, hfree, rfl⟩
    rw [cutBefore_append hfree]
    exact ⟨hfile, by simp⟩
  · cases hcut : Text.cutBefore '#' ref with
    | mk file fragment =>
      obtain ⟨href, hfree, hhead⟩ := Text.cutBefore_eq_iff.mp hcut
      rintro ⟨hfile, hfragment⟩
      obtain ⟨c, cs, hcs⟩ := List.exists_cons_of_ne_nil (mt String.toList_eq_nil_iff.mp hfragment)
      obtain rfl : c = '#' := hhead c (by rw [hcs]; rfl)
      have hrest : fragment = "#" ++ String.ofList cs := by
        rw [← String.toList_inj, hcs]
        simp
      exact ⟨file, String.ofList cs, hfile, hfree, by rw [href, hrest, String.append_assoc]⟩

instance (ref : String) : Decidable (WellFormed ref) := decidable_of_iff' _ wellFormed_iff_cut

instance (ref : String) : Decidable (NamesFile ref) := decidable_of_iff' _ namesFile_iff_cut

theorem Target.ofText_append (hfile : file ≠ "") (hfree : '#' ∉ file.toList) (rest : String) :
    ofText (file ++ "#" ++ rest) = .outside file ("#" ++ rest) := by
  have hfragment : "#" ++ rest ≠ "" := by simp
  rw [ofText, cutBefore_append hfree]
  dsimp only
  rw [if_neg (not_or.mpr ⟨hfile, hfragment⟩)]

theorem Target.ofText_cases (ref : String) :
    (NamesFile ref ∧ ∃ file fragment, ofText ref = .outside file fragment) ∨
    (¬ NamesFile ref ∧ ofText ref = .inside ref) := by
  rw [namesFile_iff_cut, ← not_or, ofText]
  dsimp only
  split
  next hnone => exact .inr ⟨not_not_intro hnone, rfl⟩
  next hboth => exact .inl ⟨hboth, _, _, rfl⟩

/-- Without a file before it, only a pointer is well formed. -/
theorem wellFormed_iff (h : ¬ NamesFile ref) : WellFormed ref ↔ Text.startsWith "#/" ref := by
  rw [Text.startsWith_iff]
  refine or_iff_left ?_
  rintro ⟨file, rest, hfile, hfree, rfl⟩
  exact h ⟨file, "/" ++ rest, hfile, hfree, append_slash file rest⟩

variable (site : Site) (s : Source) (k : Cache)

theorem navigate_ne_unsupported (document : Json) (pointer ref : String) :
    navigate document pointer ≠ .error (.unsupportedFormat ref) := by
  unfold navigate
  split <;> simp

/-- A reference that names a file is never refused for its form. -/
theorem value_tryResolve_eq_unsupported_iff (ref ref' : String) :
    ((tryResolve site ref).run s k).value = .error (.unsupportedFormat ref') ↔
      ref' = ref ∧ ¬ WellFormed ref ∧ ¬ NamesFile ref := by
  rw [value_tryResolve]
  rcases Target.ofText_cases ref with ⟨hnames, file, fragment, htarget⟩ | ⟨hnames, htarget⟩
  · rw [htarget]
    dsimp only
    refine iff_of_false ?_ fun h => h.2.2 hnames
    cases k.view s site.base file with
    | some document => exact navigate_ne_unsupported _ _ _
    | none => simp
  · rw [htarget, wellFormed_iff hnames]
    dsimp only
    split
    next hinside => simp [navigate_ne_unsupported, hinside]
    next hinside => simp [hinside, hnames, eq_comm]

theorem run_resolve_of_unsupported (hform : ¬ WellFormed ref) (hnames : ¬ NamesFile ref) :
    (resolve site ref).run s k =
      ⟨none, k, [.logged (.refNotResolved ref (.unsupportedFormat ref))]⟩ := by
  rcases Target.ofText_cases ref with ⟨hfile, -⟩ | ⟨-, htarget⟩
  · exact absurd hfile hnames
  rw [wellFormed_iff hnames] at hform
  have htry : (tryResolve site ref).run s k = ⟨.error (.unsupportedFormat ref), k, []⟩ := by
    rw [tryResolve, htarget]
    dsimp only
    rw [if_neg hform, run_pure]
  rw [resolve, run_bind, htry]
  rfl

theorem value_resolve (ref : String) :
    ((resolve site ref).run s k).value = ((tryResolve site ref).run s k).value.toOption := by
  rw [resolve, run_bind]
  cases ((tryResolve site ref).run s k).value <;> rfl

theorem steps_append (rest : String) :
    Pointer.steps ("#" ++ rest) =
      Pointer.steps ("#" ++ ("/" ++ String.ofList (Pointer.body rest))) := by
  have hbody : Pointer.body ("#" ++ rest) =
      Pointer.body ("#" ++ ("/" ++ String.ofList (Pointer.body rest))) := by
    simp [Pointer.body, List.dropWhile_idempotent]
  rw [Pointer.steps, Pointer.steps, hbody]

/-- Number signs and slashes at the beginning of a fragment do not count. -/
theorem value_resolve_append (hfile : file ≠ "") (hfree : '#' ∉ file.toList) (rest : String) :
    ((resolve site (file ++ "#" ++ rest)).run s k).value =
      ((resolve site (file ++ "#/" ++ String.ofList (Pointer.body rest))).run s k).value := by
  rw [append_slash, value_resolve, value_resolve, value_tryResolve, value_tryResolve,
    Target.ofText_append hfile hfree, Target.ofText_append hfile hfree]
  dsimp only
  cases k.view s site.base file with
  | none => rfl
  | some document =>
    dsimp only
    rw [navigate, navigate, Json.navigate, Json.navigate, ← steps_append]
    cases document.follow (Pointer.steps ("#" ++ rest)) <;> rfl

end Ref

namespace Lint

variable {t : FileTree} {dir : Path} {document : Json}

theorem eq_unsupportedRef_iff {f : Finding} {ref : String} :
    (f.code = "E004" ∧ f.message = "unsupported $ref format: " ++ ref) ↔
      f = .unsupportedRef ref := by
  constructor
  · rintro ⟨hcode, hmessage⟩
    cases f with
    | unsupportedRef ref' =>
      have hsame : ref' = ref :=
        (String.append_right_inj "unsupported $ref format: ").mp hmessage
      rw [hsame]
    | _ => simp [Finding.code] at hcode
  · rintro rfl
    exact ⟨rfl, rfl⟩

theorem checkRef_eq_unsupported_iff {ref ref' : String} :
    checkRef t dir document ref = some (.unsupportedRef ref') ↔
      ref' = ref ∧ ¬ Ref.WellFormed ref ∧ ¬ Ref.NamesFile ref := by
  rw [← Ref.value_tryResolve_eq_unsupported_iff ⟨document, dir⟩ t.source Cache.empty,
    checkRef_eq t ⟨document, dir⟩]
  cases ((Ref.tryResolve ⟨document, dir⟩ ref).run t.source Cache.empty).value with
  | ok node => simp
  | error fault =>
    cases fault with
    | unsupportedFormat ref => simp [findingOf]
    | unloadable file => simp [findingOf]
    | targetNotFound fragment =>
      simp only [findingOf, Except.error.injEq, reduceCtorEq, iff_false]
      split <;> simp

/-- A reference is reported for its form wherever it stands in the document. -/
theorem exists_unsupported_iff {ref : String} :
    (∃ l ∈ checkDocument t dir document, l.finding = .unsupportedRef ref) ↔
      (∃ ms, document.Holds (.obj ms) ∧ Members.get? Ref.keyword ms = some (.str ref)) ∧
        ¬ Ref.WellFormed ref ∧ ¬ Ref.NamesFile ref := by
  constructor
  · rintro ⟨l, hl, hfinding⟩
    have herror : l.finding.severity = .error := by rw [hfinding]; rfl
    obtain ⟨node, hnode, href⟩ := mem_checkDocument_error_iff.mp ⟨hl, herror⟩
    obtain ⟨ref', hget, f, hf, rfl⟩ := refFinding_eq_some_iff.mp href
    dsimp only at hfinding
    rw [hfinding] at hf
    obtain ⟨rfl, hform⟩ := checkRef_eq_unsupported_iff.mp hf
    exact ⟨⟨node.2, holds_of_mem_objects document hnode, hget⟩, hform⟩
  · rintro ⟨⟨ms, hms, hget⟩, hform⟩
    obtain ⟨p, hp⟩ := exists_mem_objects hms ""
    have hcheck : checkRef t dir document ref = some (.unsupportedRef ref) :=
      checkRef_eq_unsupported_iff.mpr ⟨rfl, hform⟩
    have href : refFinding t dir document (p, ms) = some ⟨p ++ "/$ref", .unsupportedRef ref⟩ :=
      refFinding_eq_some_iff.mpr ⟨ref, hget, _, hcheck, rfl⟩
    exact ⟨_, (mem_checkDocument_error_iff.mpr ⟨_, hp, href⟩).1, rfl⟩

end Lint

open Ref

/-- A reference that is not well formed is unsupported, for the compiler and for lint, exactly if it
names no file. One that names a file is never unsupported: its fragment leads where the same
fragment with `#/` before it leads. -/
theorem unsupported_iff_names_no_file (ref : String) :
    (∀ site s k, ((tryResolve site ref).run s k).value = .error (.unsupportedFormat ref) ↔
      ¬ WellFormed ref ∧ ¬ NamesFile ref) ∧
    (¬ WellFormed ref → ¬ NamesFile ref → ∀ site s k, (resolve site ref).run s k =
      ⟨none, k, [.logged (.refNotResolved ref (.unsupportedFormat ref))]⟩) ∧
    (∀ t file base document, t.source.load file = .ok document →
      ((∃ l ∈ (lintFile t file base).findings, l.finding.code = "E004" ∧
          l.finding.message = "unsupported $ref format: " ++ ref) ↔
        (∃ ms, document.Holds (.obj ms) ∧ Members.get? keyword ms = some (.str ref)) ∧
          ¬ WellFormed ref ∧ ¬ NamesFile ref)) ∧
    ∀ file rest, file ≠ "" → '#' ∉ file.toList → ref = file ++ "#" ++ rest → ∀ site s k,
      ((resolve site ref).run s k).value =
        ((resolve site (file ++ "#/" ++ String.ofList (Pointer.body rest))).run s k).value := by
  refine ⟨fun site s k => ?_, fun hform hnames site s k => ?_, ?_, ?_⟩
  · simpa using value_tryResolve_eq_unsupported_iff site s k ref ref
  · exact run_resolve_of_unsupported site s k hform hnames
  · intro t file base document hload
    simp only [eq_unsupportedRef_iff, lintFile, checkFile, hload]
    exact exists_unsupported_iff
  · rintro file rest hfile hfree rfl site s k
    exact value_resolve_append site s k hfile hfree rest

section Samples

def scoreSite (ref : String) : Site := reviewSite [("score", .obj [("$ref", .str ref)])]

/-- A schema file with one reference beside the types that it uses. -/
def scoreTree (ref : String) : FileTree := ⟨.dir [
  ("review.json", .file (Json.compact (scoreSite ref).document).toUTF8),
  ("common.json", .file (Json.compact (.obj [("Score", typed "integer")])).toUTF8)], []⟩

/-- A fragment without a slash names a member all the same, and lint has nothing to say. -/
theorem fragment_without_slash_resolved :
    ¬ WellFormed "common.json#Score" ∧
    ((((resolve (scoreSite "common.json#Score") "common.json#Score").run
      (scoreTree "common.json#Score").source Cache.empty).value.bind (Json.textAt? "type")) =
      some "integer") ∧
    (lintFile (scoreTree "common.json#Score") ⟨"review.json"⟩ ⟨"."⟩).findings = [] := by
  decide +kernel

/-- Without a file before it, the same fragment is refused. -/
theorem bare_fragment_unsupported :
    ¬ WellFormed "#Score" ∧ ¬ NamesFile "#Score" ∧
    ((resolve (scoreSite "#Score") "#Score").run (scoreTree "#Score").source Cache.empty).value =
      none ∧
    ∃ l ∈ (lintFile (scoreTree "#Score") ⟨"review.json"⟩ ⟨"."⟩).findings,
      l.finding.code = "E004" := by
  obtain ⟨-, hresolve, hlint, -⟩ := unsupported_iff_names_no_file "#Score"
  obtain ⟨hform, hnames⟩ : ¬ WellFormed "#Score" ∧ ¬ NamesFile "#Score" := by decide
  have hrun := hresolve hform hnames (scoreSite "#Score") (scoreTree "#Score").source Cache.empty
  have hread : ((((scoreTree "#Score").source.load ⟨"review.json"⟩).toOption.bind
      (·.get? "properties")).bind (·.get? "score")).bind (Json.textAt? "$ref") = some "#Score" := by
    decide +kernel
  obtain ⟨score, hscore, href⟩ := Option.bind_eq_some_iff.mp hread
  obtain ⟨properties, hproperties, hscore⟩ := Option.bind_eq_some_iff.mp hscore
  obtain ⟨document, hdocument, hproperties⟩ := Option.bind_eq_some_iff.mp hproperties
  have hload : (scoreTree "#Score").source.load ⟨"review.json"⟩ = .ok document := by
    cases hload : (scoreTree "#Score").source.load ⟨"review.json"⟩ with
    | error error => rw [hload] at hdocument; cases hdocument
    | ok document' => rw [hload] at hdocument; rw [Option.some.inj hdocument]
  have hholds : document.Holds score :=
    (Json.holds_of_get? hproperties).trans (Json.holds_of_get? hscore)
  have hget := Json.textAt?_eq_some_iff.mp href
  cases score with
  | obj ms =>
    obtain ⟨l, hl, hcode, -⟩ :=
      (hlint _ _ ⟨"."⟩ _ hload).mpr ⟨⟨ms, hholds, hget⟩, hform, hnames⟩
    exact ⟨hform, hnames, by rw [hrun], l, hl, hcode⟩
  | _ => cases hget

end Samples

end OnchainSchema
