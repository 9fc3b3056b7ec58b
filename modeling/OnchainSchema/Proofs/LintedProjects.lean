import OnchainSchema.Proofs.Compilation
import OnchainSchema.Proofs.LintedFiles

/-!
References of a project that lint finds no error in. Lint judges a reference in the file that it
stands in, and compilation resolves it in the file that is compiled. These are one file but for the
items that a property takes over from another file.
-/
namespace OnchainSchema

namespace Fetch

variable {α β : Type} {s : Source} {c : Cache}

/-- No reference is logged as one that cannot be resolved. -/
def AllResolved (x : Fetch α) (s : Source) (c : Cache) : Prop :=
  ∀ ref fault, Event.refNotResolved ref fault ∉ (x.run s c).journal.events

/-- Such an event is a warning. -/
theorem allResolved_of_no_warning {x : Fetch α}
    (h : ∀ e ∈ (x.run s c).journal.events, e.level ≠ .warn) : AllResolved x s c := by
  intro ref fault hmem
  exact h _ hmem rfl

@[simp] theorem allResolved_pure (a : α) : AllResolved (Pure.pure a) s c := by
  simp [AllResolved, Journal.events]

@[simp] theorem allResolved_log {e : Event} :
    AllResolved (log e) s c ↔ ∀ ref fault, e ≠ .refNotResolved ref fault := by
  simp [AllResolved, Journal.events, eq_comm]

@[simp] theorem allResolved_bind {x : Fetch α} {f : α → Fetch β} :
    AllResolved (x >>= f) s c ↔
      AllResolved x s c ∧ AllResolved (f (x.run s c).value) s (x.run s c).cache := by
  simp only [AllResolved, run_bind, Journal.events_append, List.mem_append, not_or,
    forall_and]

@[simp] theorem allResolved_loadRoot (p : Path) : AllResolved (loadRoot p) s c := by
  rw [AllResolved, run_loadRoot]
  split <;> simp [Journal.events]

@[simp] theorem allResolved_load (file : String) (base : Path) :
    AllResolved (load file base) s c := by
  intro ref fault hmem
  rcases mem_events_load hmem with h | ⟨error, h⟩ <;> cases h

end Fetch

open Fetch

variable {site : Site} {s : Source} {c c' : Cache}

namespace Ref

/-- The reference of a property, if it has one, has a target. -/
def Resolvable (site : Site) (s : Source) (c : Cache) (property : Json) : Prop :=
  ∀ ref, property.textAt? keyword = some ref → HasTarget site s c ref

theorem resolvable_congr (h : c.view s site.base = c'.view s site.base) (property : Json) :
    Resolvable site s c property ↔ Resolvable site s c' property := by
  unfold Resolvable HasTarget
  simp only [value_tryResolve, h]

theorem allResolved_resolve_iff {ref : String} :
    AllResolved (resolve site ref) s c ↔ HasTarget site s c ref := by
  have htry : AllResolved (tryResolve site ref) s c := by
    unfold tryResolve
    split
    · rw [allResolved_bind]
      refine ⟨allResolved_load _ _, ?_⟩
      split <;> exact allResolved_pure _
    · exact allResolved_pure _
  unfold HasTarget
  rw [resolve, allResolved_bind]
  cases ((tryResolve site ref).run s c).value with
  | ok node => simp [htry]
  | error fault => simp

theorem allResolved_expand_iff {property : Json} :
    AllResolved (expand site property) s c ↔ Resolvable site s c property := by
  unfold expand Resolvable
  cases property.textAt? keyword with
  | none => simp
  | some ref =>
    simp only [allResolved_bind, allResolved_resolve_iff, Option.some.injEq, forall_eq']
    refine and_iff_left_of_imp fun _ => ?_
    split <;> simp

end Ref

namespace Build

/-- The items that are looked at for the type of a field: those of an array that is not skipped. -/
def Needed (site : Site) (s : Source) (c : Cache) (property items : Json) : Prop :=
  let p := Property.ofJson (Ref.expanded site s c property)
  (∀ reason ∈ p.skipReason, reason.excludes = false) ∧ p.effectiveType? = some "array" ∧
    p.items = some items

/-- A field whose references all have targets, as far as they are looked at. -/
def FieldResolved (site : Site) (s : Source) (c : Cache) (property : Json) : Prop :=
  Ref.Resolvable site s c property ∧
    ∀ items, Needed site s c property items → Ref.Resolvable site s c items

theorem fieldResolved_congr (h : c.view s site.base = c'.view s site.base) (property : Json) :
    FieldResolved site s c property ↔ FieldResolved site s c' property := by
  have hexpanded : Ref.expanded site s c property = Ref.expanded site s c' property :=
    (Ref.loadsFrom_expand property).transparent.value_eq h
  unfold FieldResolved Needed
  simp only [Ref.resolvable_congr h, hexpanded]

theorem allResolved_itemsOf_iff {p : Property} :
    AllResolved (itemsOf site p) s c ↔
      ∀ items, p.effectiveType? = some "array" → p.items = some items →
        Ref.Resolvable site s c items := by
  unfold itemsOf
  split
  next items htype hitems =>
    simp [htype, hitems, itemFacets, Ref.allResolved_expand_iff]
  next hno =>
    refine iff_of_true (allResolved_pure _) fun items htype hitems => ?_
    exact absurd hitems (hno items htype)

theorem allResolved_typeOf_iff {name : String} {p : Property} :
    AllResolved (typeOf site name p) s c ↔
      ∀ items, p.effectiveType? = some "array" → p.items = some items →
        Ref.Resolvable site s c items := by
  rw [typeOf, allResolved_bind, allResolved_itemsOf_iff]
  refine and_iff_left_of_imp fun _ => ?_
  split <;> simp

theorem allResolved_decide_iff {name : String} {property : Json} :
    AllResolved (decide site name property) s c ↔ FieldResolved site s c property := by
  have hview := (@Ref.loadsFrom_expand site property).transparent.view_after s c
  have hkept (wrap : AbiType → FieldOutcome) (p : Property) :
      AllResolved (do return ((← typeOf site name p).map wrap).getD .dropped) s
          ((Ref.expand site property).run s c).cache ↔
        ∀ items, p.effectiveType? = some "array" → p.items = some items →
          Ref.Resolvable site s c items := by
    simp only [allResolved_bind, allResolved_typeOf_iff, allResolved_pure, and_true,
      Ref.resolvable_congr hview]
  rw [decide, allResolved_bind, Ref.allResolved_expand_iff]
  refine and_congr_right fun _ => ?_
  unfold Needed Ref.expanded
  dsimp only
  generalize Property.ofJson ((Ref.expand site property).run s c).value = p
  cases hreason : p.skipReason with
  | none => simpa using hkept .included p
  | some reason =>
    cases reason <;> simp [SkipReason.excludes, hkept]

theorem allResolved_decisionsOf_iff {properties : Members} :
    AllResolved (decisionsOf site properties) s c ↔
      ∀ m ∈ properties, FieldResolved site s c m.2 := by
  induction properties generalizing c with
  | nil => simp [decisionsOf]
  | cons m ms ih =>
    have hview := (transparent_decide site m.1 m.2).view_after s c
    rw [decisionsOf, allResolved_bind, allResolved_decide_iff, allResolved_bind, ih]
    simp only [fieldResolved_congr hview, allResolved_pure, and_true, List.forall_mem_cons]

end Build

theorem Compile.allResolved_finish (options : Options) (name : String) (b : Build) :
    AllResolved (finish options name b) s c := by
  have hrevocability (c : Cache) : AllResolved (revocability options b) s c := by
    unfold revocability
    cases options.revocable with
    | some flag => simp
    | none => cases detectsRevocation b <;> simp
  have hresolver (c : Cache) : AllResolved (resolverOf options) s c := by
    unfold resolverOf
    cases options.registry.usesResolver with
    | false => simp
    | true => cases options.resolver <;> simp
  simp [finish, hrevocability, hresolver]

/-- A compilation resolves no reference unless it succeeds. -/
theorem allResolved_compile_iff {options : Options} :
    AllResolved (compile site options) s c ↔
      ((∃ compilation, ((compile site options).run s c).value = .ok compilation) →
        ∀ properties, Compile.propertiesOf? site.document = some properties →
          ∀ m ∈ properties, Build.FieldResolved site s c m.2) := by
  rw [value_compile]
  unfold compile
  cases Text.isBlankText (Compile.nameOf site.document options) with
  | true => simp
  | false =>
    cases Compile.propertiesOf? site.document with
    | none => simp
    | some properties =>
      simp [Build.ofProperties, Build.allResolved_decisionsOf_iff, Compile.allResolved_finish]

/-- A reference that does not lead outside has its target in the document it stands in. -/
theorem Ref.holds_of_inside {ref pointer : String} {node : Json}
    (htarget : Target.ofText ref = .inside pointer)
    (h : ((tryResolve site ref).run s c).value = .ok node) : site.document.Holds node := by
  rw [value_tryResolve, htarget] at h
  dsimp only at h
  split at h
  · unfold navigate at h
    split at h
    next found hfound =>
      cases h
      exact Json.holds_of_navigate hfound
    next => cases h
  · cases h

/-- A member of a property with its reference resolved is the property's own, or its target's. -/
theorem Ref.get?_expanded_eq_some {property v : Json} {key : String} (hkey : key ≠ keyword)
    (h : (expanded site s c property).get? key = some v) :
    property.Holds v ∨ property.get? key = none ∧ ∃ ref node,
      property.textAt? keyword = some ref ∧
      ((tryResolve site ref).run s c).value = .ok node ∧ node.Holds v := by
  rw [expanded_eq] at h
  cases href : property.textAt? keyword with
  | none =>
    rw [href] at h
    exact .inl (Json.holds_of_get? h)
  | some ref =>
    rw [href] at h
    dsimp only at h
    cases hvalue : ((tryResolve site ref).run s c).value with
    | error fault =>
      rw [hvalue] at h
      exact .inl (Json.holds_of_get? h)
    | ok node =>
      rw [hvalue] at h
      cases property with
      | obj own =>
        rcases get?_overlay_eq_some hkey h with hown | ⟨hown, htarget⟩
        · exact .inl (.member hown (.refl v))
        · refine .inr ⟨hown, ref, node, rfl, hvalue, ?_⟩
          cases node with
          | obj target => exact Json.holds_of_get? htarget
          | _ => cases htarget
      | _ => cases href

namespace Build

/-- Items that a field needs and does not have of its own: they come with its type from another
file. -/
structure Inherits (site : Site) (s : Source) (c : Cache) (property items : Json) : Prop where
  needed : Needed site s c property items
  notOwn : property.get? "items" = none
  outside : ∃ ref file fragment, property.textAt? Ref.keyword = some ref ∧
    Ref.Target.ofText ref = .outside file fragment

/-- In a clean project only items from another file may have a reference without a target. -/
theorem fieldResolved_iff_of_clean {t : FileTree} {file : Path} (h : Lint.Clean t file)
    {document : Json} (hdocument : t.source.load file = .ok document) {property : Json}
    (hproperty : document.Holds property) :
    let site : Site := ⟨document, file.directory⟩
    FieldResolved site t.source Cache.empty property ↔
      ∀ items, Inherits site t.source Cache.empty property items →
        Ref.Resolvable site t.source Cache.empty items := by
  intro site
  have hheld : ∀ {j : Json}, document.Holds j → Ref.Resolvable site t.source Cache.empty j :=
    fun hj _ href => h.hasTarget .start hdocument hj href
  constructor
  · intro hfield items hinherits
    exact hfield.2 items hinherits.needed
  · intro hinherited
    refine ⟨hheld hproperty, fun items hneeded => ?_⟩
    rcases Ref.get?_expanded_eq_some (by decide) hneeded.2.2 with
      hown | ⟨hnotOwn, ref, node, href, hvalue, hnode⟩
    · exact hheld (hproperty.trans hown)
    · cases htarget : Ref.Target.ofText ref with
      | inside pointer =>
        have hinside : document.Holds node := Ref.holds_of_inside htarget hvalue
        exact hheld (hinside.trans hnode)
      | outside other fragment =>
        exact hinherited items ⟨hneeded, hnotOwn, ref, other, fragment, href, htarget⟩

end Build

theorem Compile.holds_of_propertiesOf? {document : Json} {properties : Members}
    (h : propertiesOf? document = some properties) {m : String × Json} (hm : m ∈ properties) :
    document.Holds m.2 :=
  (Json.holds_of_get? (get?_of_propertiesOf? h)).trans (.member hm (.refl m.2))

/-- The items that the fields of a file inherit refer to what that file can reach. -/
def InheritedItemsResolve (t : FileTree) (file : Path) : Prop :=
  ∀ document properties, t.source.load file = .ok document →
    Compile.propertiesOf? document = some properties →
    ∀ m ∈ properties, ∀ items,
      Build.Inherits ⟨document, file.directory⟩ t.source Cache.empty m.2 items →
      Ref.Resolvable ⟨document, file.directory⟩ t.source Cache.empty items

/-- Compiling a file of a clean project logs a reference that cannot be resolved exactly if the
compilation succeeds and a field inherits items that refer to nothing here. -/
theorem clean_refs_resolve_iff {t : FileTree} {file : Path} (h : Lint.Clean t file)
    (options : Options) :
    AllResolved (compileFile file options) t.source Cache.empty ↔
      ((∃ compilation, ((compileFile file options).run t.source Cache.empty).value =
        .ok compilation) → InheritedItemsResolve t file) := by
  obtain ⟨document, hdocument⟩ := (h file .start).exists_document
  have hvalue : ((compileFile file options).run t.source Cache.empty).value =
      ((compile ⟨document, file.directory⟩ options).run t.source Cache.empty).value := by
    rw [compileFile, run_bind, run_loadRoot]
    dsimp only
    rw [hdocument]
  have hresolved : AllResolved (compileFile file options) t.source Cache.empty ↔
      AllResolved (compile ⟨document, file.directory⟩ options) t.source Cache.empty := by
    rw [compileFile, allResolved_bind, run_loadRoot, and_iff_right (allResolved_loadRoot file)]
    dsimp only
    rw [hdocument]
  rw [hvalue, hresolved, allResolved_compile_iff]
  refine imp_congr_right fun _ => ?_
  constructor
  · intro hfields other properties hother hproperties m hm
    obtain rfl := Except.ok.inj (hdocument.symm.trans hother)
    have hheld := Compile.holds_of_propertiesOf? hproperties hm
    apply (Build.fieldResolved_iff_of_clean h hdocument hheld).mp
    exact hfields properties hproperties m hm
  · intro hinherited properties hproperties m hm
    have hheld := Compile.holds_of_propertiesOf? hproperties hm
    apply (Build.fieldResolved_iff_of_clean h hdocument hheld).mpr
    exact hinherited document properties hdocument hproperties m hm

section Samples

theorem exists_compilation_of_isOk {r : Except CompileError Compilation} (h : r.isOk) :
    ∃ compilation, r = .ok compilation := by
  cases r with
  | ok compilation => exact ⟨compilation, rfl⟩
  | error error => cases h

/-- A schema file beside the types that it uses, of which one refers to another. -/
def reviewTree (review : String) : FileTree := ⟨.dir [
  ("review.json", .file review.toUTF8),
  ("common.json", .file "\x7b\"Scores\":\x7b\"type\":\"array\",\"items\":\x7b\"$ref\":\"#/Score\"\x7d\x7d,\"Score\":\x7b\"type\":\"integer\"\x7d\x7d".toUTF8)],
  []⟩

def reviewFiles : List Path := [⟨"review.json"⟩, ⟨"common.json"⟩]

def reviewOptions : Options := ⟨.eas, some "review", none, none⟩

def scoresText : String :=
  "\x7b\"properties\":\x7b\"scores\":\x7b\"$ref\":\"common.json#/Scores\"\x7d\x7d\x7d"

/-- The items refer to `common.json`, where lint looks, and are looked up in `review.json`. -/
theorem inherited_items_unresolved :
    Lint.Clean (reviewTree scoresText) ⟨"review.json"⟩ ∧
    Event.refNotResolved "#/Score" (.targetNotFound "#/Score") ∈
      ((compileFile ⟨"review.json"⟩ reviewOptions).run (reviewTree scoresText).source
        Cache.empty).journal.events := by
  have hfiles : (∀ other ∈ reviewFiles, Lint.ErrorFree (reviewTree scoresText) other ∧
        ∀ next ∈ Command.referenced (reviewTree scoresText) other, next ∈ reviewFiles) ∧
      Event.refNotResolved "#/Score" (.targetNotFound "#/Score") ∈
        ((compileFile ⟨"review.json"⟩ reviewOptions).run (reviewTree scoresText).source
          Cache.empty).journal.events := by
    decide +kernel
  exact ⟨Lint.clean_of_closed (List.mem_cons_self ..) hfiles.1, hfiles.2⟩

/-- A schema file that has a type of the same name. -/
def scoredText : String :=
  "\x7b\"properties\":\x7b\"scores\":\x7b\"$ref\":\"common.json#/Scores\"\x7d\x7d,\"Score\":\x7b\"type\":\"boolean\"\x7d\x7d"

/-- There the items that are inherited find a target, though not the one that is meant. -/
theorem inherited_items_resolved :
    Lint.Clean (reviewTree scoredText) ⟨"review.json"⟩ ∧
    InheritedItemsResolve (reviewTree scoredText) ⟨"review.json"⟩ := by
  have hfiles : (∀ other ∈ reviewFiles, Lint.ErrorFree (reviewTree scoredText) other ∧
        ∀ next ∈ Command.referenced (reviewTree scoredText) other, next ∈ reviewFiles) ∧
      (∀ e ∈ ((compileFile ⟨"review.json"⟩ reviewOptions).run (reviewTree scoredText).source
        Cache.empty).journal.events, e.level ≠ .warn) ∧
      ((compileFile ⟨"review.json"⟩ reviewOptions).run (reviewTree scoredText).source
        Cache.empty).value.isOk := by
    decide +kernel
  obtain ⟨hfiles, hquiet, hok⟩ := hfiles
  have hclean : Lint.Clean (reviewTree scoredText) ⟨"review.json"⟩ :=
    Lint.clean_of_closed (List.mem_cons_self ..) hfiles
  have hiff := clean_refs_resolve_iff hclean reviewOptions
  exact ⟨hclean, hiff.mp (allResolved_of_no_warning hquiet) (exists_compilation_of_isOk hok)⟩

end Samples

end OnchainSchema
