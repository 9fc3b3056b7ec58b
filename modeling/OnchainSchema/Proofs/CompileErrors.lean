import OnchainSchema.Proofs.Compilation
import OnchainSchema.Proofs.Loading

/-!
The errors of a compilation. A document is compiled unless it has no name or no properties, whatever
its fields are like, and a compilation that fails has looked nothing up.
-/
namespace OnchainSchema

open Fetch

namespace Compile

/-- Nothing to name a document by: a blank name in place of the title, or, without one, no title but
a blank one. -/
def Unnamed (document : Json) (options : Options) : Prop :=
  match options.name with
  | some name => Text.isBlankText name
  | none => ∀ title, document.get? "title" = some (.str title) → Text.isBlankText title

/-- Something to compile: properties that are an object with some member. -/
def HasProperties (document : Json) : Prop :=
  ∃ m ms, document.get? "properties" = some (.obj (m :: ms))

/-- A title is blank if and only if the name made of it is. -/
theorem isBlankText_nameOf_iff (document : Json) (options : Options) :
    Text.isBlankText (nameOf document options) ↔ Unnamed document options := by
  unfold nameOf Unnamed
  cases options.name with
  | some name => rfl
  | none =>
    simp only [← Json.textAt?_eq_some_iff]
    cases document.textAt? "title" with
    | none => simp [Text.isBlankText]
    | some title => simp [nameOfTitle, Text.isBlankText_join_words]

theorem exists_propertiesOf?_iff (document : Json) :
    (∃ properties, propertiesOf? document = some properties) ↔ HasProperties document := by
  unfold propertiesOf? HasProperties
  constructor
  · rintro ⟨properties, h⟩
    split at h
    next m ms hget => exact ⟨m, ms, hget⟩
    next => cases h
  · rintro ⟨m, ms, hget⟩
    rw [hget]
    exact ⟨m :: ms, rfl⟩

end Compile

open Compile

/-- The three ways a compilation goes. Those that fail are decided before anything is looked up. -/
theorem run_compile_cases (site : Site) (options : Options) (s : Source) (k : Cache) :
    let o := (compile site options).run s k
    (Unnamed site.document options ∧ o = ⟨.error .missingName, k, []⟩) ∨
    (¬ Unnamed site.document options ∧ ¬ HasProperties site.document ∧
      o = ⟨.error .noProperties, k, []⟩) ∨
    (¬ Unnamed site.document options ∧ HasProperties site.document ∧ ∃ c, o.value = .ok c) := by
  rw [← isBlankText_nameOf_iff, ← exists_propertiesOf?_iff]
  unfold compile
  -- Both tests come before the first step that may load or log.
  cases Text.isBlankText (nameOf site.document options) with
  | true => exact .inl ⟨rfl, rfl⟩
  | false =>
    cases propertiesOf? site.document with
    | none => exact .inr (.inl ⟨by simp, by simp, rfl⟩)
    | some properties => exact .inr (.inr ⟨by simp, ⟨properties, rfl⟩, _, rfl⟩)

variable {site : Site} {options : Options} {s : Source} {k : Cache}

theorem compile_missingName_iff : ((compile site options).run s k).value = .error .missingName ↔
    Unnamed site.document options := by
  rcases run_compile_cases site options s k with ⟨hname, ho⟩ | ⟨hname, -, ho⟩ | ⟨hname, -, c, hc⟩
  · simp [ho, hname]
  · simp [ho, hname]
  · simp [hc, hname]

theorem compile_noProperties_iff : ((compile site options).run s k).value = .error .noProperties ↔
    ¬ Unnamed site.document options ∧ ¬ HasProperties site.document := by
  rcases run_compile_cases site options s k with
    ⟨hname, ho⟩ | ⟨hname, hnone, ho⟩ | ⟨-, hsome, c, hc⟩
  · simp [ho, hname]
  · simp [ho, hname, hnone]
  · simp [hc, hsome]

theorem compile_ok_iff : (∃ c, ((compile site options).run s k).value = .ok c) ↔
    ¬ Unnamed site.document options ∧ HasProperties site.document := by
  rcases run_compile_cases site options s k with
    ⟨hname, ho⟩ | ⟨-, hnone, ho⟩ | ⟨hname, hsome, c, hc⟩
  · simp [ho, hname]
  · simp [ho, hnone]
  · simp [hc, hname, hsome]

theorem untouched_of_compile_error {error : CompileError}
    (h : ((compile site options).run s k).value = .error error) :
    ((compile site options).run s k).cache = k ∧
      ((compile site options).run s k).journal = [] := by
  rcases run_compile_cases site options s k with ⟨-, ho⟩ | ⟨-, -, ho⟩ | ⟨-, -, c, hc⟩
  · exact ⟨congrArg Outcome.cache ho, congrArg Outcome.journal ho⟩
  · exact ⟨congrArg Outcome.cache ho, congrArg Outcome.journal ho⟩
  · rw [hc] at h
    cases h

/-- A file that can be loaded is compiled as its document is; one that cannot is only asked for. -/
theorem run_compileFile (file : Path) (options : Options) (s : Source) (k : Cache) :
    (compileFile file options).run s k =
      match s.load file with
      | .error error => ⟨.error (.load error), k, inquiry s file⟩
      | .ok document =>
        let o := (compile ⟨document, file.directory⟩ options).run s k
        ⟨o.value, o.cache, inquiry s file ++ o.journal⟩ := by
  rw [compileFile, run_bind, run_loadRoot]
  cases s.load file with
  | error error =>
    dsimp only
    rw [run_pure, List.append_nil]
    rfl
  | ok document => rfl

/-- A document without a name is refused, then one without properties, and every other one is
compiled. A compilation that fails has done nothing, and that of a file no more than ask for it. -/
theorem fails_only_by_document (site : Site) (options : Options) (s : Source) (k : Cache) :
    let o := (compile site options).run s k
    (o.value = .error .missingName ↔ Unnamed site.document options) ∧
    (o.value = .error .noProperties ↔
      ¬ Unnamed site.document options ∧ ¬ HasProperties site.document) ∧
    ((∃ c, o.value = .ok c) ↔ ¬ Unnamed site.document options ∧ HasProperties site.document) ∧
    (∀ error, o.value = .error error → o.cache = k ∧ o.journal = []) ∧
    ∀ file, let o' := (compileFile file options).run s k
      (∀ error, s.load file = .error error → o'.value = .error (.load error)) ∧
      (∀ document, s.load file = .ok document →
        o'.value = ((compile ⟨document, file.directory⟩ options).run s k).value) ∧
      ∀ error, o'.value = .error error → o'.cache = k ∧ o'.journal = inquiry s file := by
  intro o
  refine ⟨compile_missingName_iff, compile_noProperties_iff, compile_ok_iff,
    fun _ h => untouched_of_compile_error h, fun file => ?_⟩
  rw [run_compileFile]
  cases s.load file with
  | error error => simp
  | ok document =>
    refine ⟨by simp, by simp, fun error herror => ?_⟩
    obtain ⟨hcache, hjournal⟩ := untouched_of_compile_error herror
    refine ⟨hcache, ?_⟩
    dsimp only
    rw [hjournal, List.append_nil]

section Samples

/-- A title of blanks that are not ASCII, and fields of which none can be read. -/
def blankSite : Site :=
  ⟨.obj [("title", .str "\u3000\u2003"), ("properties", .obj [
    ("a", .null), ("b", .obj [("$ref", .str "gone.json#/B")]),
    ("c", .obj [("type", .str "array"), ("items", .obj [("$ref", .str "#")])])])], ⟨"."⟩⟩

/-- Only the name decides. -/
theorem blank_title_refused :
    ((compile blankSite {}).run noFiles Cache.empty).value = .error .missingName ∧
    ((compile blankSite {}).run noFiles Cache.empty).journal = [] ∧
    ∃ c, ((compile blankSite ⟨.eas, some "B", none, none⟩).run noFiles Cache.empty).value =
      .ok c := by
  have hproperties : HasProperties blankSite.document := ⟨_, _, rfl⟩
  obtain ⟨hname, -, -, herror, -⟩ := fails_only_by_document blankSite {} noFiles Cache.empty
  obtain ⟨-, -, hok, -⟩ :=
    fails_only_by_document blankSite ⟨.eas, some "B", none, none⟩ noFiles Cache.empty
  have hblank := hname.mpr ((isBlankText_nameOf_iff blankSite.document {}).mp (by decide +kernel))
  refine ⟨hblank, (herror _ hblank).2, hok.mpr ⟨?_, hproperties⟩⟩
  rw [← isBlankText_nameOf_iff]
  decide

end Samples

end OnchainSchema
