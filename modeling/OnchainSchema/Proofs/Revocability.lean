import OnchainSchema.Proofs.Compilation
import OnchainSchema.Proofs.FieldIndependence
import OnchainSchema.Proofs.Outcomes

/-!
When a schema is revocable. Unless the options say so, that is read from the outcome of one field,
which its skip reason settles before anything else about it is looked at.
-/
namespace OnchainSchema

open Fetch

theorem SkipReason.of?_eq_some_eas_iff {schema : Json} :
    of? schema = some .eas ↔ schema.textAt? skipReasonKey = some "eas" := by
  have hparse : ∀ tag, parse tag = .eas ↔ tag = "eas" := by
    intro tag
    constructor
    · intro h
      rw [← text_parse tag, h]
      rfl
    · rintro rfl
      rfl
  simp [of?, hparse]

namespace Build

variable (site : Site) (s : Source) (c : Cache)

/-- What a build says of a name is what it has decided about the property of that name. -/
theorem outcome?_ofProperties (ps : Members) (name : String) :
    ((ofProperties site ps).run s c).value.outcome? name =
      (Members.get? name ps).map fun property => ((decide site name property).run s c).value := by
  rw [outcome?, decisions_eq_map_alone]
  induction ps with
  | nil => rfl
  | cons m ms ih =>
    rw [List.map_cons, List.find?_cons, Members.get?]
    by_cases hname : m.1 = name
    · subst hname
      simp [alone]
    · rw [if_neg hname, ← ih]
      simp [alone, hname]

/-- The attestation service is named before the type of a field is looked for. -/
theorem value_decide_eq_skipped_eas_iff (name : String) (property : Json) :
    ((decide site name property).run s c).value = .skipped .eas ↔
      (Ref.expanded site s c property).textAt? skipReasonKey = some "eas" := by
  rw [value_decide, outcomeOf_eq_skipped_iff, ← SkipReason.of?_eq_some_eas_iff]
  exact and_iff_left rfl

/-- The properties that were built before do not change what a property refers to. -/
theorem expanded_after (before : Members) (property : Json) :
    Ref.expanded site s ((ofProperties site before).run s c).cache property =
      Ref.expanded site s c property := by
  have hview := (@loadsFrom_ofProperties site before).transparent.view_after s c
  exact (Ref.loadsFrom_expand property).transparent.value_eq hview

end Build

/-- The document has a property for revocation. With its reference resolved, as the source and the
cache stand, that says that the attestation service handles it. -/
def HandsOverRevocation (site : Site) (s : Source) (c : Cache) : Prop :=
  ∃ properties property, site.document.get? "properties" = some (.obj properties) ∧
    Members.get? "revoked" properties = some property ∧
    (Ref.expanded site s c property).textAt? "x-oma3-skip-reason" = some "eas"

namespace Compile

theorem detectsRevocation_iff {site : Site} {ps : Members}
    (h : propertiesOf? site.document = some ps) (s : Source) (c : Cache) :
    detectsRevocation ((Build.ofProperties site ps).run s c).value = true ↔
      HandsOverRevocation site s c := by
  have hps := get?_of_propertiesOf? h
  simp only [detectsRevocation, decide_eq_true_eq, Build.outcome?_ofProperties,
    Option.map_eq_some_iff, Build.value_decide_eq_skipped_eas_iff]
  constructor
  · rintro ⟨property, hget, htag⟩
    exact ⟨ps, property, hps, hget, htag⟩
  · rintro ⟨ps', property, hps', hget, htag⟩
    rw [hps] at hps'
    obtain rfl := Json.obj.inj (Option.some.inj hps')
    exact ⟨property, hget, htag⟩

end Compile

theorem handsOverRevocation_after (site : Site) (s : Source) (c : Cache) (before : Members) :
    HandsOverRevocation site s ((Build.ofProperties site before).run s c).cache ↔
      HandsOverRevocation site s c := by
  simp only [HandsOverRevocation, Build.expanded_after]

/-- The flag of a record is the one that is asked for, and otherwise it is true exactly if the
document hands revocation over. It makes no difference which properties are built before the one
that says so. The flag of the record is also the one that is hashed. -/
theorem revocable_iff_handed_over {site : Site} {options : Options} {s : Source} {k : Cache}
    {c : Compilation} (h : ((compile site options).run s k).value = .ok c) :
    (∀ flag, options.revocable = some flag → c.record.revocable = flag) ∧
    (options.revocable = none →
      (c.record.revocable = true ↔ HandsOverRevocation site s k) ∧
      ∀ before, c.record.revocable = true ↔
        HandsOverRevocation site s ((Build.ofProperties site before).run s k).cache) ∧
    (options.registry = .eas → ∃ resolver : Address,
      c.record.resolver = some (addressText resolver) ∧
      c.uid = hashText (Keccak.hash (Text.bytes c.record.schema ++ resolver.toList ++
        [if c.record.revocable then 1 else 0]))) := by
  obtain ⟨-, properties, hproperties, rfl⟩ := compile_eq_ok_iff.mp h
  have hdetected := Compile.detectsRevocation_iff hproperties s k
  refine ⟨fun flag hflag => ?_, fun hnone => ?_, fun heas => ?_⟩
  · simp only [Compile.assemble, Compile.flagOf, hflag, Option.getD_some]
  · have hrecord : (Compile.assemble options (Compile.nameOf site.document options)
        ((Build.ofProperties site properties).run s k).value).record.revocable = true ↔
        HandsOverRevocation site s k := by
      simp only [Compile.assemble, Compile.flagOf, hnone, Option.getD_none, hdetected]
    refine ⟨hrecord, fun before => ?_⟩
    rw [handsOverRevocation_after]
    exact hrecord
  · refine ⟨Compile.addressOf options, ?_, ?_⟩
    · simp only [Compile.assemble, heas, Registry.usesResolver, ↓reduceIte]
    · simp only [Compile.assemble, heas]
      rfl

section Samples

/-- A file of types, one of which is handed over. -/
def handedTypes : Source := Source.ofList [(⟨"schemas/types.json"⟩, some
  "\x7b\"Day\":\x7b\"type\":\"integer\"\x7d,\"Flag\":\x7b\"x-oma3-skip-reason\":\"eas\"\x7d\x7d")]

def handedProperties : Members := [
  ("day", .obj [("$ref", .str "types.json#/Day")]),
  ("revoked", .obj [("type", .str "array"), ("$ref", .str "types.json#/Flag")])]

def handedSite : Site :=
  ⟨.obj [("title", .str "Day"), ("properties", .obj handedProperties)], ⟨"schemas"⟩⟩

def handedBuild : Build :=
  ((Build.ofProperties handedSite handedProperties).run handedTypes Cache.empty).value

theorem compile_handedSite (options : Options) (h : options.name = none) :
    ((compile handedSite options).run handedTypes Cache.empty).value =
      .ok (Compile.assemble options "Day" handedBuild) := by
  have hname : Compile.nameOf handedSite.document options = "Day" := by
    rw [Compile.nameOf, h]
    decide +kernel
  rw [compile_eq_ok_iff, hname]
  exact ⟨by decide, handedProperties, rfl, rfl⟩

/-- The tag is that of a type in another file, which an earlier property has loaded. -/
theorem referred_tag_detected :
    let built := Compile.assemble {} "Day" handedBuild
    let denied : Options := ⟨.eas, none, some false, none⟩
    ((compile handedSite {}).run handedTypes Cache.empty).value = .ok built ∧
    HandsOverRevocation handedSite handedTypes Cache.empty ∧
    built.record.schema = "uint256 day" ∧ built.record.revocable = true ∧
    (∃ resolver : Address, built.record.resolver = some (addressText resolver) ∧
      built.uid = hashText (Keccak.hash (Text.bytes "uint256 day" ++ resolver.toList ++ [1]))) ∧
    (Compile.assemble denied "Day" handedBuild).record.revocable = false := by
  intro built denied
  have hhanded : HandsOverRevocation handedSite handedTypes Cache.empty :=
    ⟨handedProperties, _, rfl, rfl, by decide +kernel⟩
  have hschema : built.record.schema = "uint256 day" := by decide +kernel
  have hbuilt := compile_handedSite {} rfl
  obtain ⟨-, hdetected, hhashed⟩ := revocable_iff_handed_over hbuilt
  obtain ⟨hasked, -, -⟩ := revocable_iff_handed_over (compile_handedSite denied rfl)
  have hrevocable : built.record.revocable = true := (hdetected rfl).1.mpr hhanded
  obtain ⟨resolver, hresolver, huid⟩ := hhashed rfl
  rw [hrevocable, hschema] at huid
  exact ⟨hbuilt, hhanded, hschema, hrevocable, ⟨resolver, hresolver, huid⟩, hasked false rfl⟩

end Samples

end OnchainSchema
