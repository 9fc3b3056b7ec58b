import OnchainSchema.Proofs.Compilation
import OnchainSchema.Proofs.FieldIndependence
import OnchainSchema.Proofs.Outcomes

/-!
The order in which a field's outcome is settled. A skip reason goes before everything, an override
before the pinned name, that before the effective type, and of an array the items are asked in the
same way. The ladder is said here on the schemas alone; every field is shown to get what it gives.
-/
namespace OnchainSchema

open Fetch

/-! The ladder. What a schema refers to has been laid under it by `resolve`. -/
namespace Ladder

def typeName? (schema : Json) : Option String := (Property.ofJson schema).effectiveType?

def asksBytes32 (schema : Json) : Bool := schema.textAt? "x-oma3-abi" = some "bytes32"

/-- The table of scalars. What it does not name is a string. -/
def scalar (type pattern : Option String) : Scalar :=
  match type with
  | some "integer" | some "number" => .uint256
  | some "boolean" => .bool
  | some "string" => if pattern.any Hex64.occurs then .bytes32 else .string
  | _ => .string

/-- An array of items. Items of no type, or that are arrays themselves, have none. -/
def arrayOf? (item : Json) : Option AbiType :=
  if typeName? item = none ∨ typeName? item = some "array" then none
  else if asksBytes32 item then some ⟨.bytes32, true⟩
  else some ⟨scalar (typeName? item) (item.textAt? "pattern"), true⟩

def type? (resolve : Json → Json) (name : String) (schema : Json) : Option AbiType :=
  if asksBytes32 schema then some ⟨.bytes32, false⟩
  else if name = "purpose" then some ⟨.string, false⟩
  else if typeName? schema ≠ some "array" then
    some ⟨scalar (typeName? schema) (schema.textAt? "pattern"), false⟩
  else (schema.get? "items").bind fun items => arrayOf? (resolve items)

def outcomeOf (tag : Option String) (type : Option AbiType) : FieldOutcome :=
  match tag with
  | some "metadata" => .skipped .metadata
  | some "eas" => .skipped .eas
  | some "unused" => type.elim .dropped .reserved
  | _ => type.elim .dropped .included

def outcome (resolve : Json → Json) (name : String) (property : Json) : FieldOutcome :=
  outcomeOf ((resolve property).textAt? "x-oma3-skip-reason") (type? resolve name (resolve property))

theorem asksBytes32_iff {schema : Json} :
    asksBytes32 schema ↔ AbiOverride.of? schema = some .bytes32 := by
  have hparse : ∀ name, AbiOverride.parse name = .bytes32 ↔ name = "bytes32" := by
    intro name
    unfold AbiOverride.parse
    split <;> simp_all
  simp [asksBytes32, AbiOverride.of?, abiOverrideKey, hparse]

/-- Types are compared in lower case, in which effective types are already. -/
theorem scalarOf_eq_scalar {type : Option String} (h : ∀ t ∈ type, Text.asciiLower t = t)
    (pattern : Option String) : Abi.scalarOf type pattern = scalar type pattern := by
  cases type with
  | none => rfl
  | some t =>
    simp only [Abi.scalarOf, h t rfl]
    split
    next hstring =>
      subst hstring
      cases pattern <;> rfl
    next hstring =>
      split
      next hnumber => rcases hnumber with rfl | rfl <;> rfl
      next hnumber =>
        split
        next hboolean =>
          subst hboolean
          rfl
        next hboolean =>
          unfold scalar
          split <;> simp_all

theorem facets_ofJson (schema : Json) : (Property.ofJson schema).facets =
    ⟨typeName? schema, schema.textAt? "pattern", AbiOverride.of? schema⟩ := rfl

theorem lower_typeName {schema : Json} : ∀ t ∈ typeName? schema, Text.asciiLower t = t :=
  fun _ => Property.asciiLower_effectiveType

theorem isArrayType_typeName_iff (schema : Json) :
    Abi.isArrayType (typeName? schema) ↔ typeName? schema = some "array" :=
  Property.isArrayType_effectiveType _

theorem toOption_arrayOf (item : Json) :
    (Abi.arrayOf (some (Property.ofJson item).facets)).toOption = arrayOf? item := by
  rw [facets_ofJson, Abi.arrayOf]
  simp only [isArrayType_typeName_iff, ← asksBytes32_iff, scalarOf_eq_scalar lower_typeName]
  unfold arrayOf?
  by_cases hnone : typeName? item = none
  · simp [hnone, Except.toOption]
  by_cases hnested : typeName? item = some "array"
  · simp [hnested, Except.toOption]
  rw [if_neg hnone, if_neg hnested, if_neg (not_or.mpr ⟨hnone, hnested⟩)]
  split <;> rfl

/-- The type of a field is found as on the ladder. -/
theorem value_typeOf_eq_type? (site : Site) (s : Source) (c : Cache) (name : String)
    (schema : Json) :
    ((Build.typeOf site name (Property.ofJson schema)).run s c).value =
      type? (Ref.expanded site s c) name schema := by
  rw [Build.value_typeOf, Build.value_itemsOf, facets_ofJson, Abi.mapField, Abi.pinnedField]
  simp only [isArrayType_typeName_iff, ← asksBytes32_iff, scalarOf_eq_scalar lower_typeName]
  unfold type?
  by_cases habi : asksBytes32 schema = true
  · rw [if_pos habi, if_pos habi]
    rfl
  by_cases hname : name = "purpose"
  · rw [if_neg habi, if_neg habi, if_pos hname, if_pos hname]
    rfl
  rw [if_neg habi, if_neg habi, if_neg hname, if_neg hname]
  by_cases harray : typeName? schema = some "array"
  -- Only here are the items looked at, so only here does it matter what they resolve to.
  · rw [if_pos harray, if_neg (not_not.mpr harray)]
    change (Abi.arrayOf (if typeName? schema = some "array" then _ else _)).toOption = _
    rw [if_pos harray]
    change (Abi.arrayOf ((schema.get? "items").map _)).toOption = _
    cases schema.get? "items" with
    | none => rfl
    | some items => exact toOption_arrayOf _
  · rw [if_neg harray, if_pos harray]
    rfl

theorem outcomeOf_eq (schema : Json) (type : Option AbiType) :
    Build.outcomeOf (SkipReason.of? schema) type =
      outcomeOf (schema.textAt? "x-oma3-skip-reason") type := by
  rw [SkipReason.of?, skipReasonKey]
  cases schema.textAt? "x-oma3-skip-reason" with
  | none => cases type <;> rfl
  | some tag =>
    rw [Option.map_some, SkipReason.parse]
    by_cases hmetadata : tag = "metadata"
    · subst hmetadata
      rfl
    by_cases heas : tag = "eas"
    · subst heas
      rfl
    by_cases hunused : tag = "unused"
    · subst hunused
      cases type <;> rfl
    rw [if_neg hmetadata, if_neg heas, if_neg hunused]
    unfold outcomeOf
    split <;> simp_all [Build.outcomeOf, SkipReason.excludes]
    cases type <;> rfl

/-- The decision about a field is the one at which the ladder ends. -/
theorem value_decide_eq_outcome (site : Site) (s : Source) (c : Cache) (name : String)
    (property : Json) :
    ((Build.decide site name property).run s c).value =
      outcome (Ref.expanded site s c) name property := by
  rw [Build.value_decide, value_typeOf_eq_type?, outcome, ← outcomeOf_eq]
  rfl

theorem arrayOf?_eq_none_iff {item : Json} :
    arrayOf? item = none ↔ typeName? item = none ∨ typeName? item = some "array" := by
  unfold arrayOf?
  split
  next htype => exact iff_of_true rfl htype
  next htype => split <;> exact iff_of_false (by simp) htype

/-- Only an array may be without a type, and only through its items. -/
theorem type?_eq_none_iff {resolve : Json → Json} {name : String} {schema : Json} :
    type? resolve name schema = none ↔
      asksBytes32 schema = false ∧ name ≠ "purpose" ∧ typeName? schema = some "array" ∧
      ∀ items, schema.get? "items" = some items →
        typeName? (resolve items) = none ∨ typeName? (resolve items) = some "array" := by
  unfold type?
  by_cases habi : asksBytes32 schema = true
  · simp [habi]
  by_cases hname : name = "purpose"
  · simp [habi, hname]
  by_cases harray : typeName? schema = some "array"
  · simp [habi, hname, harray, Option.bind_eq_none_iff, arrayOf?_eq_none_iff]
  · simp [habi, hname, harray]

theorem outcomeOf_eq_dropped_iff {tag : Option String} {type : Option AbiType} :
    outcomeOf tag type = .dropped ↔ tag ≠ some "metadata" ∧ tag ≠ some "eas" ∧ type = none := by
  unfold outcomeOf
  split <;> cases type <;> simp_all

end Ladder

namespace Build

/-- Every field, in a build or by itself, has the outcome the ladder ends at. It is dropped if it is
wanted, asks for no type, is not the pinned field, and is an array whose items have no type. -/
theorem outcome_follows_ladder (site : Site) (s : Source) (c : Cache) :
    let resolve := Ref.expanded site s c
    let outcome (name : String) (property : Json) := ((decide site name property).run s c).value
    (∀ name property, outcome name property = Ladder.outcome resolve name property) ∧
    (∀ properties, ((ofProperties site properties).run s c).value.decisions =
      properties.map fun m => ⟨m.1, Ladder.outcome resolve m.1 m.2⟩) ∧
    ∀ name property, let schema := resolve property
      outcome name property = .dropped ↔
        schema.textAt? "x-oma3-skip-reason" ≠ some "metadata" ∧
        schema.textAt? "x-oma3-skip-reason" ≠ some "eas" ∧
        schema.textAt? "x-oma3-abi" ≠ some "bytes32" ∧ name ≠ "purpose" ∧
        Ladder.typeName? schema = some "array" ∧
        ∀ items, schema.get? "items" = some items →
          Ladder.typeName? (resolve items) = none ∨
            Ladder.typeName? (resolve items) = some "array" := by
  intro resolve outcome
  have hladder : ∀ name property,
      outcome name property = Ladder.outcome resolve name property :=
    Ladder.value_decide_eq_outcome site s c
  refine ⟨hladder, fun properties => ?_, fun name property => ?_⟩
  · rw [decisions_eq_map_alone]
    exact List.map_congr_left fun m _ => congrArg (Decision.mk m.1) (hladder m.1 m.2)
  · rw [hladder, Ladder.outcome, Ladder.outcomeOf_eq_dropped_iff, Ladder.type?_eq_none_iff,
      Ladder.asksBytes32, decide_eq_false_iff_not]

section Samples

def digestSite : Site :=
  ⟨.obj [("definitions", .obj [("Digest",
    .obj [("type", .str "string"), ("pattern", .str "[0-9a-f]{64}")])])], ⟨"."⟩⟩

/-- Arrays on each step of the ladder. -/
def arrayProperties : Members :=
  let array (own : Members) : Json := .obj (("type", .str "array") :: own)
  [("notes", array [("x-oma3-abi", .str "bytes32"), ("x-oma3-skip-reason", .str "metadata")]),
    ("root", array [("x-oma3-abi", .str "bytes32")]),
    ("purpose", array []),
    ("digests", array [("items", .obj [("$ref", .str "#/definitions/Digest")]),
      ("x-oma3-skip-reason", .str "unused")]),
    ("ids", array [("items", .obj [("type", .arr [.str "null", .str "Integer"]),
      ("x-oma3-abi", .str "bytes32")])]),
    ("counts", array [("items", .obj [("anyOf", .arr [.obj [("type", .str "number")]])]),
      ("pattern", .str "[0-9a-f]{64}")]),
    ("rows", array [("items", .obj [("type", .str "array"), ("x-oma3-abi", .str "bytes32")])]),
    ("tags", array [("items", .null), ("x-oma3-skip-reason", .str "unused")])]

theorem arrays_on_ladder :
    ((ofProperties digestSite arrayProperties).run noFiles Cache.empty).value.decisions =
      [⟨"notes", .skipped .metadata⟩, ⟨"root", .included ⟨.bytes32, false⟩⟩,
        ⟨"purpose", .included ⟨.string, false⟩⟩, ⟨"digests", .reserved ⟨.bytes32, true⟩⟩,
        ⟨"ids", .included ⟨.bytes32, true⟩⟩, ⟨"counts", .included ⟨.uint256, true⟩⟩,
        ⟨"rows", .dropped⟩, ⟨"tags", .dropped⟩] := by
  obtain ⟨-, hdecisions, -⟩ := outcome_follows_ladder digestSite noFiles Cache.empty
  exact (hdecisions arrayProperties).trans (by decide)

end Samples

end Build

end OnchainSchema
