import OnchainSchema.Proofs.LintedFiles
import OnchainSchema.Proofs.SharedSession

/-!
Lint and compilation judge references alike. What lint finds on a reference tells how compilation
fails to resolve it, also where the cache holds documents of the same directory already.
-/
namespace OnchainSchema

open Fetch Lint

/-- Something is there, and it cannot be read or is no JSON. -/
def FileTree.Unloadable (t : FileTree) (p : Path) : Prop :=
  t.has p = true ∧
    ((∃ fault, t.read p = .error fault) ∨
      ∃ text fault, t.read p = .ok text ∧ Json.parse text = .error fault)

theorem FileTree.unloadable_iff_load {t : FileTree} {p : Path} :
    t.Unloadable p ↔ t.has p = true ∧ ∃ error, t.source.load p = .error error := by
  refine and_congr_right fun hhas => ?_
  rw [Source.load, has_source, if_pos hhas, read_source]
  cases hread : t.read p with
  | error fault => simp
  | ok text => cases hparse : Json.parse text <;> simp [Json.load, hparse]

namespace Ref

variable {site : Site} {s : Source} {ref : String}

theorem value_tryResolve_of_coherent {c : Cache} (h : c.Coherent s site.base) (ref : String) :
    ((tryResolve site ref).run s c).value = ((tryResolve site ref).run s Cache.empty).value :=
  (loadsFrom_tryResolve ref).transparent.value_eq (Cache.coherent_iff_view.mp h)

/-- With nothing cached, a reference fails at its file exactly if loading the file does. -/
theorem unloadable_iff_load {file : String} :
    ((tryResolve site ref).run s Cache.empty).value = .error (.unloadable file) ↔
      ∃ fragment, Target.ofText ref = .outside file fragment ∧
        ∃ error, s.load (site.base.join file) = .error error := by
  constructor
  · intro h
    obtain ⟨fragment, htarget, hnone⟩ := view_of_unloadable h
    refine ⟨fragment, htarget, ?_⟩
    rw [Cache.view_empty] at hnone
    cases hload : s.load (site.base.join file) with
    | ok document => simp [hload, Except.toOption] at hnone
    | error error => exact ⟨error, rfl⟩
  · rintro ⟨fragment, htarget, error, hload⟩
    rw [value_tryResolve, htarget]
    dsimp only
    rw [Cache.view_empty, hload]
    rfl

end Ref

namespace Lint

section Codes

variable (t : FileTree) (dir : Path) (ref : String)

/-- The codes of what is found on a reference, given what resolving it comes to. -/
def codesOf : Except Ref.Fault Json → List String
  | .ok _ => []
  | .error fault => (findingOf t dir ref fault).toList.map Finding.code

@[simp] theorem codesOf_ok (node : Json) : codesOf t dir ref (.ok node) = [] := rfl

@[simp] theorem codesOf_unsupportedFormat (ref' : String) :
    codesOf t dir ref (.error (.unsupportedFormat ref')) = ["E004"] := rfl

@[simp] theorem codesOf_targetNotFound (pointer : String) :
    codesOf t dir ref (.error (.targetNotFound pointer)) = ["E003"] := by
  rw [codesOf, findingOf]
  split <;> rfl

@[simp] theorem codesOf_unloadable (file : String) :
    codesOf t dir ref (.error (.unloadable file)) =
      if t.has (dir.join file) then [] else ["E002"] := by
  rw [codesOf, findingOf]
  split <;> rfl

end Codes

/-- What lint says of a reference is settled by what resolving it comes to in compilation. Each kind
of failure has its code, except that lint passes over a file that is there and cannot be loaded. -/
theorem codes_as_resolved (t : FileTree) (site : Site) (c : Cache)
    (h : c.Coherent t.source site.base) (ref : String) :
    let codes := (checkRef t site.base site.document ref).toList.map Finding.code
    let resolved := ((Ref.tryResolve site ref).run t.source c).value
    ("E004" ∈ codes ↔ ∃ ref', resolved = .error (.unsupportedFormat ref')) ∧
    ("E003" ∈ codes ↔ ∃ pointer, resolved = .error (.targetNotFound pointer)) ∧
    ("E002" ∈ codes ↔ ∃ file fragment, Ref.Target.ofText ref = .outside file fragment ∧
      t.has (site.base.join file) = false) ∧
    (codes = [] ↔ (∃ node, resolved = .ok node) ∨
      ∃ file fragment, Ref.Target.ofText ref = .outside file fragment ∧
        t.Unloadable (site.base.join file)) ∧
    codes.length ≤ 1 ∧ ∀ code ∈ codes, code ∈ ["E002", "E003", "E004"] := by
  intro codes resolved
  have hresolved : resolved = ((Ref.tryResolve site ref).run t.source Cache.empty).value :=
    Ref.value_tryResolve_of_coherent h ref
  have hcodes : codes = codesOf t site.base ref resolved := by
    simp only [codes]
    rw [checkRef_eq, hresolved]
    cases ((Ref.tryResolve site ref).run t.source Cache.empty).value <;> rfl
  -- a file that fails to load is the one failure that lint judges in two ways
  have hgone : (∃ file fragment, Ref.Target.ofText ref = .outside file fragment ∧
      t.has (site.base.join file) = false) ↔
      ∃ file, resolved = .error (.unloadable file) ∧ t.has (site.base.join file) = false := by
    simp only [hresolved, Ref.unloadable_iff_load]
    constructor
    · rintro ⟨file, fragment, htarget, hhas⟩
      exact ⟨file, ⟨fragment, htarget, _, load_of_not_has hhas⟩, hhas⟩
    · rintro ⟨file, ⟨fragment, htarget, -⟩, hhas⟩
      exact ⟨file, fragment, htarget, hhas⟩
  have hthere : (∃ file fragment, Ref.Target.ofText ref = .outside file fragment ∧
      t.Unloadable (site.base.join file)) ↔
      ∃ file, resolved = .error (.unloadable file) ∧ t.has (site.base.join file) = true := by
    simp only [hresolved, Ref.unloadable_iff_load, FileTree.unloadable_iff_load]
    constructor
    · rintro ⟨file, fragment, htarget, hhas, hload⟩
      exact ⟨file, ⟨fragment, htarget, hload⟩, hhas⟩
    · rintro ⟨file, ⟨fragment, htarget, hload⟩, hhas⟩
      exact ⟨file, fragment, htarget, hhas, hload⟩
  rw [hgone, hthere, hcodes]
  cases resolved with
  | ok node => simp
  | error fault =>
    cases fault with
    | unsupportedFormat ref' => simp
    | targetNotFound pointer => simp
    | unloadable file => cases hhas : t.has (site.base.join file) <;> simp [hhas]

section Samples

/-- A file of shared types and one that is no JSON. -/
def sharedTypes : FileTree := ⟨.dir [("schemas", .dir [
  ("common.json", .file "\x7b\"Score\":\x7b\"type\":\"integer\"\x7d\x7d".toUTF8),
  ("draft.json", .file "Score".toUTF8)])], []⟩

/-- The cache once the shared types have been loaded. -/
def sharedCache : Cache :=
  ((Request.load "common.json" ⟨"schemas"⟩).perform.run sharedTypes.source Cache.empty).cache

/-- Lint reads the shared types again, and compilation is served them. -/
theorem shared_refs_judged :
    let site : Site := ⟨.obj [], ⟨"schemas"⟩⟩
    let judged (ref : String) := checkRef sharedTypes site.base site.document ref
    sharedCache.size = 1 ∧ sharedCache.Coherent sharedTypes.source site.base ∧
    judged "common.json#/Day" = some (.anchorNotFoundIn "common.json" "#/Day") ∧
    (∃ pointer, ((Ref.tryResolve site "common.json#/Day").run sharedTypes.source
      sharedCache).value = .error (.targetNotFound pointer)) ∧
    sharedTypes.Unloadable (site.base.join "draft.json") ∧ judged "draft.json#/Score" = none := by
  intro site judged
  have hcache : sharedCache.Coherent sharedTypes.source site.base :=
    Request.coherent_perform (by decide) (Cache.coherent_empty _ _)
  obtain ⟨-, hmissing, -⟩ := codes_as_resolved sharedTypes site sharedCache hcache "common.json#/Day"
  obtain ⟨-, -, -, hnone, -⟩ :=
    codes_as_resolved sharedTypes site sharedCache hcache "draft.json#/Score"
  have hday : judged "common.json#/Day" = some (.anchorNotFoundIn "common.json" "#/Day") := by
    decide +kernel
  have hdraft : sharedTypes.Unloadable (site.base.join "draft.json") := by
    obtain ⟨hthere, hload⟩ : sharedTypes.has (site.base.join "draft.json") ∧
        (sharedTypes.source.load (site.base.join "draft.json")).toOption.isNone := by
      decide +kernel
    refine FileTree.unloadable_iff_load.mpr ⟨hthere, ?_⟩
    cases h : sharedTypes.source.load (site.base.join "draft.json") with
    | ok document => simp [h, Except.toOption] at hload
    | error error => exact ⟨error, rfl⟩
  have hcodes := hnone.mpr (.inr ⟨"draft.json", "#/Score", by decide +kernel, hdraft⟩)
  refine ⟨by decide +kernel, hcache, hday, hmissing.mp ?_, hdraft, ?_⟩
  · change "E003" ∈ (judged "common.json#/Day").toList.map Finding.code
    rw [hday]
    decide
  · exact Option.toList_eq_nil_iff.mp (List.map_eq_nil_iff.mp hcodes)

end Samples

end Lint

end OnchainSchema
