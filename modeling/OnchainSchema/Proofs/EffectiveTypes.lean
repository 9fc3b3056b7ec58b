import Mathlib.Data.List.Perm.Basic
import OnchainSchema.Property

/-!
The effective type of a schema, said on its members: the declared type, or the pick among the types
that the members of its compositions offer. The order of the offers matters only to unranked types.
-/
namespace OnchainSchema

namespace TypeDecl

/-- The type that a schema declares. -/
def named? (schema : Json) : Option String := (of? schema).bind primary?

/-- Which entry of a list stands for it, and so the type, does not depend on the case of letters. -/
theorem primary?_union_sameLetters (ns ms : List String) {t t' : String}
    (h : Text.sameLetters t t') :
    (union (ns ++ t :: ms)).primary? = (union (ns ++ t' :: ms)).primary? := by
  have hnull : isNull t = isNull t' := by
    rw [isNull, isNull, Bool.eq_iff_iff, Text.sameLetters_iff, Text.sameLetters_iff,
      Text.sameLetters_iff.mp h]
  have hlower := Text.lower_eq_of_sameLetters h
  simp only [primary?, List.find?_append, List.find?_cons, List.head?_append, List.head?_cons,
    Option.map_or, hnull]
  cases isNull t' <;> simp [hlower]

/-- A null does not stand for a list with another entry. -/
theorem primary?_union_null (ns ms : List String) {n t : String} (hnull : isNull n)
    (hkept : t ∈ ns ++ ms) (hother : isNull t = false) :
    (union (ns ++ ms)).primary? = (union (ns ++ n :: ms)).primary? := by
  have hfind : (ns ++ n :: ms).find? (!isNull ·) = (ns ++ ms).find? (!isNull ·) := by
    simp [List.find?_append, hnull]
  have hsome : ((ns ++ ms).find? (!isNull ·)).isSome := by
    rw [List.find?_isSome]
    exact ⟨t, hkept, by simpa using hother⟩
  obtain ⟨first, hfirst⟩ := Option.isSome_iff_exists.mp hsome
  simp only [primary?, hfind, hfirst, Option.some_or]

end TypeDecl

namespace Branch

def conditionalTypes (member : Json) (keyword : String) : List String :=
  (conditionalSchemas member keyword).filterMap TypeDecl.named?

/-- The types that a member of a composition offers: its own and those of its conditionals. -/
def types (member : Json) : List String :=
  (TypeDecl.named? member).toList ++ conditionalKeywords.flatMap (conditionalTypes member)

theorem candidates_ofJson (member : Json) : (ofJson member).candidates = types member := by
  have hown : (TypeDecl.of? member).toList.filterMap TypeDecl.primary? =
      (TypeDecl.named? member).toList := by
    unfold TypeDecl.named?
    cases TypeDecl.of? member with
    | none => rfl
    | some decl => cases h : decl.primary? <;> simp [h]
  simp only [candidates, ofJson, List.filterMap_append, hown, List.filterMap_filterMap,
    List.filterMap_flatMap]
  rfl

theorem types_of_not_isObject {member : Json} (h : member.isObject = false) :
    types member = [] := by
  cases member <;> first | rfl | cases h

end Branch

namespace Property

def typesUnder (schema : Json) (keyword : String) : List String :=
  (((schema.get? keyword).bind Json.elems?).getD []).flatMap Branch.types

theorem typesUnder_of_get?_eq {schema : Json} {keyword : String} {es : List Json}
    (h : schema.get? keyword = some (.arr es)) :
    typesUnder schema keyword = es.flatMap Branch.types := by
  rw [typesUnder, h]
  rfl

/-- The types that the members of all compositions offer. -/
def offers (schema : Json) : List String := Shape.compositionKeywords.flatMap (typesUnder schema)

theorem offers_eq_flatMap_compositions (schema : Json) :
    offers schema = (Shape.compositions schema).flatten.flatMap Branch.types := by
  unfold offers Shape.compositions
  induction Shape.compositionKeywords with
  | nil => rfl
  | cons keyword keywords ih =>
    rw [List.flatMap_cons, ih, List.filterMap_cons, typesUnder]
    cases (schema.get? keyword).bind Json.elems? with
    | none => rfl
    | some es => rw [List.flatten_cons, List.flatMap_append, Option.getD_some]

theorem flatMap_candidates (es : List Json) :
    ((es.filter Json.isObject).map Branch.ofJson).flatMap Branch.candidates =
      es.flatMap Branch.types := by
  induction es with
  | nil => rfl
  | cons e es ih =>
    by_cases hobject : e.isObject = true
    · rw [List.filter_cons_of_pos hobject, List.map_cons, List.flatMap_cons, List.flatMap_cons, ih,
        Branch.candidates_ofJson]
    · rw [List.filter_cons_of_neg hobject, ih, List.flatMap_cons,
        Branch.types_of_not_isObject (Bool.eq_false_iff.mpr hobject), List.nil_append]

/-- Only a schema that declares no type has one picked for it. -/
theorem effectiveType?_ofJson (schema : Json) :
    (ofJson schema).effectiveType? =
      match TypeDecl.of? schema with
      | some decl => decl.primary?
      | none => pick? (offers schema) := by
  rw [offers_eq_flatMap_compositions]
  unfold effectiveType? ofJson Shape.ofJson
  cases TypeDecl.of? schema with
  | some decl => rfl
  | none =>
    cases Shape.compositions schema with
    | nil => rfl
    | cons es lists => exact congrArg pick? (flatMap_candidates _)

/-- One type, or two that have no rank. -/
def SameRank (t t' : Option String) : Prop :=
  t = t' ∨ ∃ u u', t = some u ∧ t' = some u' ∧ u ∉ ranked ∧ u' ∉ ranked

theorem SameRank.refl (t : Option String) : SameRank t t := .inl rfl

theorem SameRank.eq_some_iff {t t' : Option String} (h : SameRank t t') {u : String}
    (hu : u ∈ ranked) : t = some u ↔ t' = some u := by
  obtain rfl | ⟨v, v', rfl, rfl, hv, hv'⟩ := h
  · rfl
  · rw [Option.some.injEq, Option.some.injEq]
    exact iff_of_false (fun h => hv (h ▸ hu)) (fun h => hv' (h ▸ hu))

theorem SameRank.eq_none_iff {t t' : Option String} (h : SameRank t t') :
    t = none ↔ t' = none := by
  obtain rfl | ⟨_, _, rfl, rfl, -, -⟩ := h
  · rfl
  · simp

/-- A type with a rank is picked in whatever order the types are offered. -/
theorem sameRank_pick?_of_perm {types types' : List String} (h : types.Perm types') :
    SameRank (pick? types) (pick? types') := by
  have hcontains : (types'.contains ·) = (types.contains ·) :=
    funext fun _ => h.symm.contains_eq
  unfold pick?
  rw [hcontains]
  cases hranked : ranked.find? (types.contains ·) with
  | some t => exact .inl rfl
  | none =>
    -- The first offer is picked, which may be another one in another order.
    have hunranked : ∀ t ∈ types, t ∉ ranked := by
      intro t ht hrank
      exact absurd (List.contains_iff_mem.mpr ht) (List.find?_eq_none.mp hranked t hrank)
    cases types with
    | nil => rw [h.nil_eq]; exact .refl _
    | cons t ts =>
      cases types' with
      | nil => exact absurd h.eq_nil (List.cons_ne_nil t ts)
      | cons t' ts' =>
        exact .inr ⟨t, t', rfl, rfl, hunranked t List.mem_cons_self,
          hunranked t' (h.mem_iff.mpr List.mem_cons_self)⟩

end Property

end OnchainSchema
