import OnchainSchema.Proofs.Compilation
import OnchainSchema.Proofs.FieldIndependence
import OnchainSchema.Proofs.Outcomes

/-!
Retiring a field. A tag that excludes nothing may be set on a field at any time: its type is found
as before, so the layout, and with it every record and identifier, stays as it is.
-/
namespace OnchainSchema

open Fetch

/-- The members of a property with a skip reason of its own. -/
def retag (tag : String) (own : Members) : Members := Members.put skipReasonKey (.str tag) own

variable {site : Site} {s : Source} {c : Cache} {name : String} {own : Members}

namespace Build

/-- All that a tag changes in the view of a property is the skip reason. -/
theorem ofJson_expanded_retag (h : (Members.keys own).Nodup) (tag : String) :
    Property.ofJson (Ref.expanded site s c (.obj (retag tag own))) =
      { Property.ofJson (Ref.expanded site s c (.obj own)) with
        skipReason := some (SkipReason.parse tag) } := by
  have hget := @Ref.get?_expanded_put site s c own h skipReasonKey (by decide) (.str tag)
  have hreason : SkipReason.of? (Ref.expanded site s c (.obj (retag tag own))) =
      some (SkipReason.parse tag) := by
    rw [SkipReason.of?, Json.textAt?, retag, hget, if_pos rfl]
    rfl
  rw [← hreason]
  apply Property.ofJson_of_get?_eq
  intro k hk
  rw [retag, hget, if_neg hk.symm]

/-- A field that is not skipped has a type, or has none, whatever its skip reason is. -/
theorem type?_decide (m : String × Json)
    (hkept : ∀ reason, ((decide site m.1 m.2).run s c).value ≠ .skipped reason) :
    ((decide site m.1 m.2).run s c).value.type? =
      ((typeOf site m.1 (Property.ofJson (Ref.expanded site s c m.2))).run s c).value := by
  rw [value_decide] at hkept ⊢
  apply type?_outcomeOf
  intro reason hreason
  have hne := hkept reason
  rw [ne_eq, outcomeOf_eq_skipped_iff, not_and, Bool.not_eq_true] at hne
  exact hne hreason

/-- The outcome of a field with a tag that excludes nothing: a slot, or a field like any other. -/
def retired (tag : String) (type : Option AbiType) : FieldOutcome :=
  (type.map (if tag = "unused" then .reserved else .included)).getD .dropped

@[simp] theorem type?_retired (tag : String) (type : Option AbiType) :
    (retired tag type).type? = type := by
  unfold retired
  cases type with
  | none => rfl
  | some t => split <;> rfl

theorem retired_ne_skipped (tag : String) (type : Option AbiType) (reason : SkipReason) :
    retired tag type ≠ .skipped reason := by
  unfold retired
  cases type with
  | none => simp
  | some t => split <;> simp

theorem outcomeOf_parse {tag : String} (htag : tag ≠ "metadata" ∧ tag ≠ "eas")
    (type : Option AbiType) : outcomeOf (some (SkipReason.parse tag)) type = retired tag type := by
  rw [SkipReason.parse, if_neg htag.1, if_neg htag.2, retired]
  by_cases hunused : tag = "unused"
  · rw [if_pos hunused, if_pos hunused]
    rfl
  · rw [if_neg hunused, if_neg hunused]
    rfl

/-- The two runs: the tagged property has the type it had. -/
theorem value_decide_retag (h : (Members.keys own).Nodup) {tag : String}
    (htag : tag ≠ "metadata" ∧ tag ≠ "eas")
    (hkept : ∀ reason, ((decide site name (.obj own)).run s c).value ≠ .skipped reason) :
    ((decide site name (.obj (retag tag own))).run s c).value =
      retired tag ((decide site name (.obj own)).run s c).value.type? := by
  rw [type?_decide (name, .obj own) hkept, value_decide, ofJson_expanded_retag h,
    outcomeOf_parse htag]
  rfl

/-- Exchanging decisions that skip nothing does not change what is skipped. -/
theorem outcome?_middle (ds es : List Decision) (d d' : Decision) (hname : d.field = d'.field)
    {reason : SkipReason} (hd : d.outcome ≠ .skipped reason) (hd' : d'.outcome ≠ .skipped reason)
    (field : String) :
    outcome? ⟨ds ++ d :: es⟩ field = some (.skipped reason) ↔
      outcome? ⟨ds ++ d' :: es⟩ field = some (.skipped reason) := by
  unfold outcome?
  dsimp only
  rw [List.find?_append, List.find?_append, List.find?_cons, List.find?_cons, hname]
  cases ds.find? (·.field = field) with
  | some first => rfl
  | none =>
    by_cases hfield : d'.field = field
    · simp [hfield, hd, hd']
    · simp [hfield]

end Build

/-- A record and its identifier come from the options, the title, the schema text and what the
build says about revocation. -/
theorem Compile.assemble_of_schema_eq {b b' : Build} (hschema : b'.schema = b.schema)
    (hrevocation : detectsRevocation b' = detectsRevocation b) (options : Options)
    (title : String) :
    (assemble options title b').record = (assemble options title b).record ∧
      (assemble options title b').uid = (assemble options title b).uid := by
  simp only [assemble, flagOf, hschema, hrevocation, and_self]

namespace Build

/-- A field that is not skipped may be given any skip reason that does not exclude it. The layout
stays, and so do the other decisions, the detected flag, and every record and identifier. The
members of the field are those of an object, so no key is there twice. -/
theorem retiring_keeps_layout (site : Site) (s : Source) (c : Cache) (before after : Members)
    (name : String) (own : Members) (tag : String) (hkeys : (Members.keys own).Nodup)
    (htag : tag ≠ "metadata" ∧ tag ≠ "eas") :
    let built (own : Members) :=
      ((ofProperties site (before ++ (name, .obj own) :: after)).run s c).value
    let b := built own
    let b' := built (retag tag own)
    (∀ reason, b.decisions[before.length]? ≠ some ⟨name, .skipped reason⟩) →
    b'.fields = b.fields ∧ b'.schema = b.schema ∧
    (∃ outcome, b.decisions[before.length]? = some ⟨name, outcome⟩ ∧
      b'.decisions = b.decisions.set before.length ⟨name, retired tag outcome.type?⟩) ∧
    Compile.detectsRevocation b' = Compile.detectsRevocation b ∧
    ∀ options title,
      (Compile.assemble options title b').record = (Compile.assemble options title b).record ∧
      (Compile.assemble options title b').uid = (Compile.assemble options title b).uid := by
  intro built b b' houtcome
  have hdecisions : ∀ own, (built own).decisions = before.map (alone site s c) ++
      alone site s c (name, .obj own) :: after.map (alone site s c) := by
    intro own
    rw [decisions_eq_map_alone, List.map_append, List.map_cons]
  have hbefore : b.decisions[before.length]? = some (alone site s c (name, .obj own)) := by
    rw [hdecisions, List.getElem?_append_right (by simp), List.length_map, Nat.sub_self]
    rfl
  have hkept : ∀ reason, ((decide site name (.obj own)).run s c).value ≠ .skipped reason := by
    intro reason hskipped
    apply houtcome reason
    rw [hbefore, alone, hskipped]
  have hafter : alone site s c (name, .obj (retag tag own)) =
      ⟨name, retired tag ((decide site name (.obj own)).run s c).value.type?⟩ :=
    congrArg (Decision.mk name) (value_decide_retag hkeys htag hkept)
  have hset : b'.decisions = b.decisions.set before.length
      ⟨name, retired tag ((decide site name (.obj own)).run s c).value.type?⟩ := by
    rw [hdecisions, hdecisions, hafter, List.set_append_right _ _ (by simp), List.length_map,
      Nat.sub_self]
    rfl
  have hfields : b'.fields = b.fields := by
    have hfield : (alone site s c (name, .obj (retag tag own))).field? =
        (alone site s c (name, .obj own)).field? := by
      rw [hafter, Decision.field?, Decision.field?, type?_retired]
      rfl
    rw [fields, fields, hdecisions, hdecisions, List.filterMap_append, List.filterMap_append,
      List.filterMap_cons, List.filterMap_cons, hfield]
  have hschema : b'.schema = b.schema := congrArg SchemaText.join hfields
  have hrevocation : Compile.detectsRevocation b' = Compile.detectsRevocation b := by
    have hkept' : (alone site s c (name, .obj (retag tag own))).outcome ≠ .skipped .eas := by
      rw [hafter]
      exact retired_ne_skipped tag _ .eas
    have hiff := outcome?_middle (before.map (alone site s c)) (after.map (alone site s c))
      (alone site s c (name, .obj (retag tag own))) (alone site s c (name, .obj own)) rfl
      hkept' (hkept .eas) revokedField
    rw [← hdecisions, ← hdecisions] at hiff
    exact decide_eq_decide.mpr hiff
  exact ⟨hfields, hschema, ⟨_, hbefore, hset⟩, hrevocation,
    Compile.assemble_of_schema_eq hschema hrevocation⟩

section Samples

/-- A definition that says of itself that it is unused, and properties that refer to it. -/
def unusedScore : Site :=
  ⟨.obj [("definitions", .obj [("Score",
    .obj [("type", .str "integer"), (skipReasonKey, .str "unused")])])], ⟨"."⟩⟩

def revokedProperty : String × Json :=
  ("revoked", .obj [("type", .str "boolean"), (skipReasonKey, .str "eas")])

/-- A tag of the property's own takes the place of that of its target, and the layout stays. -/
theorem score_retagged :
    let built (own : Members) :=
      ((ofProperties unusedScore [revokedProperty, ("score", .obj own)]).run noFiles
        Cache.empty).value
    let score : Members := [("$ref", .str "#/definitions/Score")]
    (built score).decisions =
      [⟨"revoked", .skipped .eas⟩, ⟨"score", .reserved ⟨.uint256, false⟩⟩] ∧
    (built (retag "someday" score)).decisions =
      [⟨"revoked", .skipped .eas⟩, ⟨"score", .included ⟨.uint256, false⟩⟩] ∧
    (built (retag "someday" score)).schema = (built score).schema ∧
    Compile.detectsRevocation (built (retag "someday" score)) = true := by
  intro built score
  have hdecisions : (built score).decisions =
      [⟨"revoked", .skipped .eas⟩, ⟨"score", .reserved ⟨.uint256, false⟩⟩] := by decide
  obtain ⟨-, hschema, -, hrevocation, -⟩ := retiring_keeps_layout unusedScore noFiles Cache.empty
    [revokedProperty] [] "score" score "someday" (by decide) (by decide) (by
      intro reason
      change (built score).decisions[1]? ≠ _
      rw [hdecisions]
      simp)
  refine ⟨hdecisions, by decide, hschema, hrevocation.trans ?_⟩
  decide

end Samples

end Build

end OnchainSchema
