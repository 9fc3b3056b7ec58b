import OnchainSchema.Proofs.FieldIndependence
import OnchainSchema.Proofs.Outcomes

/-!
Slots of unused fields. A field that is tagged as unused keeps its place in the layout exactly if it
has an ABI type, which only some arrays do not have.
-/
namespace OnchainSchema

theorem Abi.isSome_mapField_iff {name : String} {own : Facets} {items : Option Facets} :
    (mapField name own items).toOption.isSome ↔
      own.override = some .bytes32 ∨ name = pinnedField ∨ isArrayType own.type = false ∨
        ∃ item type, items = some item ∧ item.type = some type ∧ isArrayType (some type) = false := by
  unfold mapField
  split
  next hoverride => simp [hoverride, Except.toOption]
  split
  next hname => simp [hname, Except.toOption]
  split
  next hoverride hname harray =>
    simp only [hoverride, hname, harray, Bool.true_eq_false, false_or]
    unfold arrayOf
    cases items with
    | none => simp [Except.toOption]
    | some item =>
      cases htype : item.type with
      | none => simp [htype, Except.toOption]
      | some type =>
        simp only [htype, reduceCtorEq, ↓reduceIte]
        by_cases hnested : isArrayType (some type)
        · simp [hnested, htype, Except.toOption]
        · rw [if_neg hnested]
          split <;> simp [htype, hnested, Except.toOption]
  next harray => simp [harray, Except.toOption]

namespace Build

/-- A field has an ABI type unless it is an array without items of a type that is no array. An
override and the pinned name go before the type. -/
def Representable (site : Site) (s : Source) (c : Cache) (name : String) (schema : Json) : Prop :=
  let p := Property.ofJson schema
  p.override = some .bytes32 ∨ name = Abi.pinnedField ∨ p.effectiveType? ≠ some "array" ∨
    ∃ items type, p.items = some items ∧
      (Property.ofJson (Ref.expanded site s c items)).effectiveType? = some type ∧ type ≠ "array"

theorem isArrayType_eq_false_iff (p : Property) :
    Abi.isArrayType p.effectiveType? = false ↔ p.effectiveType? ≠ some "array" := by
  rw [ne_eq, ← p.isArrayType_effectiveType, Bool.not_eq_true]

theorem isSome_typeOf_iff (site : Site) (s : Source) (c : Cache) (name : String) (schema : Json) :
    ((typeOf site name (Property.ofJson schema)).run s c).value.isSome ↔
      Representable site s c name schema := by
  unfold Representable
  generalize Property.ofJson schema = p
  have hscalar : Abi.isArrayType p.facets.type = false ↔ p.effectiveType? ≠ some "array" :=
    isArrayType_eq_false_iff p
  rw [value_typeOf, Abi.isSome_mapField_iff, hscalar]
  refine or_congr_right (or_congr_right (or_congr_right' fun harray => ?_))
  rw [value_itemsOf, if_pos (not_not.mp harray)]
  constructor
  · rintro ⟨item, type, hitem, htype, hflat⟩
    obtain ⟨items, hitems, rfl⟩ := Option.map_eq_some_iff.mp hitem
    rw [← htype] at hflat
    have hne := (isArrayType_eq_false_iff (Property.ofJson (Ref.expanded site s c items))).mp hflat
    exact ⟨items, type, hitems, htype, fun h => hne (htype.trans (congrArg some h))⟩
  · rintro ⟨items, type, hitems, htype, hflat⟩
    refine ⟨_, type, Option.map_eq_some_iff.mpr ⟨items, hitems, rfl⟩, htype, ?_⟩
    rw [← htype, isArrayType_eq_false_iff, htype]
    simpa using hflat

/-- The outcome of a property that says it is unused. -/
theorem value_decide_of_unused {site : Site} {s : Source} {c : Cache} {m : String × Json}
    (h : (Ref.expanded site s c m.2).textAt? skipReasonKey = some "unused") :
    ((decide site m.1 m.2).run s c).value = (((typeOf site m.1
      (Property.ofJson (Ref.expanded site s c m.2))).run s c).value.map .reserved).getD .dropped := by
  have hreason : (Property.ofJson (Ref.expanded site s c m.2)).skipReason = some .unused := by
    change SkipReason.of? _ = _
    rw [SkipReason.of?, h]
    rfl
  rw [value_decide, hreason]
  rfl

/-- A field that is tagged as unused is kept as a slot exactly if it has an ABI type; if it has
none, it is dropped like any other. -/
theorem unused_reserved_iff_representable (site : Site) (s : Source) (c : Cache) (ps : Members)
    (m : String × Json) (hm : m ∈ ps)
    (hunused : (Ref.expanded site s c m.2).textAt? skipReasonKey = some "unused") :
    let b := ((ofProperties site ps).run s c).value
    ((∃ t, (m, ⟨m.1, .reserved t⟩) ∈ ps.zip b.decisions ∧ ⟨t, m.1⟩ ∈ b.fields) ↔
      Representable site s c m.1 (Ref.expanded site s c m.2)) ∧
    (¬ Representable site s c m.1 (Ref.expanded site s c m.2) →
      (m, ⟨m.1, .dropped⟩) ∈ ps.zip b.decisions) := by
  intro b
  have halone := value_decide_of_unused hunused
  rw [← isSome_typeOf_iff]
  cases htype : ((typeOf site m.1 (Property.ofJson (Ref.expanded site s c m.2))).run s c).value with
  | some t =>
    have hslot : alone site s c m = ⟨m.1, .reserved t⟩ := by
      rw [alone, halone, htype]
      rfl
    have hfield : (⟨t, m.1⟩ : Field) ∈ b.fields := by
      rw [fields_eq_filterMap_alone, List.mem_filterMap]
      exact ⟨m, hm, by rw [hslot]; rfl⟩
    refine ⟨iff_of_true ⟨t, ?_, hfield⟩ rfl, fun h => absurd rfl h⟩
    exact mem_zip_decisions_iff.mpr ⟨hm, hslot.symm⟩
  | none =>
    have hdropped : alone site s c m = ⟨m.1, .dropped⟩ := by
      rw [alone, halone, htype]
      rfl
    refine ⟨iff_of_false ?_ (by simp), fun _ => mem_zip_decisions_iff.mpr ⟨hm, hdropped.symm⟩⟩
    rintro ⟨t, hslot, -⟩
    have hd := (mem_zip_decisions_iff.mp hslot).2
    rw [hdropped] at hd
    cases hd

section Samples

/-- An array of no particular items, in a slot that is no longer used. -/
def unusedArray : Members := [
  ("tags", .obj [("type", .str "array"), (skipReasonKey, .str "unused")])]

/-- The slot is announced, and then it is dropped. -/
theorem unused_array_dropped :
    let o := (ofProperties ⟨.obj [], ⟨"."⟩⟩ unusedArray).run (Source.ofList []) Cache.empty
    o.value.decisions = [⟨"tags", .dropped⟩] ∧ o.value.fields = [] ∧
    o.journal.events = [.slotReserved "tags", .fieldDropped "tags" .noItemType] := by
  decide +kernel

/-- Digests as a type of another file, which also says that they are unused. -/
def digestTypes : Source := Source.ofList [(⟨"schemas/types.json"⟩, some
  "\x7b\"Digests\":\x7b\"type\":\"array\",\"x-oma3-skip-reason\":\"unused\"\x7d,\"Digest\":\x7b\"type\":\"string\",\"x-oma3-abi\":\"bytes32\"\x7d\x7d")]

def digests : String × Json :=
  ("digests", .obj [("$ref", .str "types.json#/Digests"),
    ("items", .obj [("$ref", .str "types.json#/Digest")])])

/-- The items are the property's own, the tag is that of its type. -/
theorem digests_reserved :
    let site : Site := ⟨.obj [], ⟨"schemas"⟩⟩
    let b := ((ofProperties site [digests]).run digestTypes Cache.empty).value
    (Ref.expanded site digestTypes Cache.empty digests.2).textAt? skipReasonKey = some "unused" ∧
    b.schema = "bytes32[] digests" ∧
    ∃ t, (digests, ⟨"digests", .reserved t⟩) ∈ [digests].zip b.decisions ∧
      ⟨t, "digests"⟩ ∈ b.fields := by
  intro site b
  obtain ⟨hunused, hschema, hsome⟩ :
      (Ref.expanded site digestTypes Cache.empty digests.2).textAt? skipReasonKey = some "unused" ∧
      b.schema = "bytes32[] digests" ∧
      ((typeOf site digests.1 (Property.ofJson (Ref.expanded site digestTypes Cache.empty
        digests.2))).run digestTypes Cache.empty).value.isSome := by
    decide +kernel
  have hiff := (unused_reserved_iff_representable site digestTypes Cache.empty [digests] digests
    (by simp) hunused).1
  refine ⟨hunused, hschema, hiff.mpr ?_⟩
  rw [← isSome_typeOf_iff]
  exact hsome

end Samples

end Build

end OnchainSchema
