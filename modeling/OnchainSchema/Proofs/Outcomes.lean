import OnchainSchema.Proofs.CacheView

/-!
What becomes of a property. Its skip reason says whether it is wanted; its type, and that of its
items if it is an array, whether it can be kept.
-/
namespace OnchainSchema

open Fetch

namespace Ref

/-- A file that a reference leads to is seen through the cache. -/
theorem value_tryResolve (site : Site) (s : Source) (c : Cache) (ref : String) :
    ((tryResolve site ref).run s c).value =
      match Target.ofText ref with
      | .inside pointer =>
        if Text.startsWith "#/" pointer then navigate site.document pointer
        else .error (.unsupportedFormat ref)
      | .outside file fragment =>
        match c.view s site.base file with
        | some document => navigate document fragment
        | none => .error (.unloadable file) := by
  unfold tryResolve
  cases Target.ofText ref with
  | inside pointer => rfl
  | outside file fragment =>
    dsimp only
    rw [run_bind, value_load]
    cases c.view s site.base file <;> rfl

theorem view_of_unloadable {site : Site} {s : Source} {c : Cache} {ref file : String}
    (h : ((tryResolve site ref).run s c).value = .error (.unloadable file)) :
    ∃ fragment, Target.ofText ref = .outside file fragment ∧ c.view s site.base file = none := by
  have hnavigate (document : Json) (fragment : String) :
      navigate document fragment ≠ .error (.unloadable file) := by
    unfold navigate
    split <;> simp
  rw [value_tryResolve] at h
  split at h
  · split at h
    · exact absurd h (hnavigate _ _)
    · cases h
  next file' fragment htarget =>
    split at h
    · exact absurd h (hnavigate _ _)
    next hview =>
      cases h
      exact ⟨fragment, htarget, hview⟩

/-- A reference has a target, as the source and the cache stand. -/
def HasTarget (site : Site) (s : Source) (c : Cache) (ref : String) : Prop :=
  ∃ node, ((tryResolve site ref).run s c).value = .ok node

/-- A property with its reference resolved, as the source and the cache stand. -/
def expanded (site : Site) (s : Source) (c : Cache) (property : Json) : Json :=
  ((expand site property).run s c).value

theorem expanded_eq (site : Site) (s : Source) (c : Cache) (property : Json) :
    expanded site s c property =
      match property.textAt? keyword with
      | none => property
      | some ref =>
        match ((tryResolve site ref).run s c).value with
        | .ok node => .obj (overlay (node.members?.getD []) (property.members?.getD []))
        | .error _ => property := by
  unfold expanded expand
  cases property.textAt? keyword with
  | none => rfl
  | some ref =>
    dsimp only
    rw [run_bind, resolve, run_bind]
    cases ((tryResolve site ref).run s c).value <;> rfl

/-- A property's own member is what its key has after the reference is resolved, and no other key
notices it. -/
theorem get?_expanded_put {site : Site} {s : Source} {c : Cache} {own : Members}
    (h : (Members.keys own).Nodup) {key : String} (hkey : key ≠ keyword) (v : Json) (k : String) :
    (expanded site s c (.obj (Members.put key v own))).get? k =
      if key = k then some v else (expanded site s c (.obj own)).get? k := by
  have href : (Json.obj (Members.put key v own)).textAt? keyword =
      (Json.obj own).textAt? keyword := by
    simp only [Json.textAt?, Json.get?, Members.get?_put, if_neg hkey]
  have hput : (Json.obj (Members.put key v own)).get? k =
      if key = k then some v else (Json.obj own).get? k :=
    Members.get?_put key k v own
  rw [expanded_eq, expanded_eq, href]
  cases (Json.obj own).textAt? keyword with
  | none => exact hput
  | some ref =>
    dsimp only
    cases ((tryResolve site ref).run s c).value with
    | error fault => exact hput
    | ok node =>
      change Members.get? k (overlay _ (Members.put key v own)) =
        if key = k then some v else Members.get? k (overlay _ own)
      rw [get?_overlay (Members.nodup_keys_put h), get?_overlay h, Members.get?_put]
      by_cases hk : key = k
      · subst hk
        simp [hkey]
      · simp [hk]

end Ref

namespace Build

/-- The outcome of a property with a skip reason, given its type if it has one. -/
def outcomeOf (reason : Option SkipReason) (type : Option AbiType) : FieldOutcome :=
  match reason with
  | some .unused => (type.map .reserved).getD .dropped
  | some reason =>
    if reason.excludes then .skipped reason else (type.map .included).getD .dropped
  | none => (type.map .included).getD .dropped

/-- The type of what is kept does not depend on why. -/
theorem type?_outcomeOf {reason : Option SkipReason} (h : ∀ r ∈ reason, r.excludes = false)
    (type : Option AbiType) : (outcomeOf reason type).type? = type := by
  cases reason with
  | none => cases type <;> rfl
  | some r =>
    have hr := h r rfl
    cases r <;> first | cases type <;> rfl | cases hr

theorem outcomeOf_eq_skipped_iff {reason : Option SkipReason} {type : Option AbiType}
    {r : SkipReason} : outcomeOf reason type = .skipped r ↔ reason = some r ∧ r.excludes := by
  cases reason with
  | none => cases type <;> simp [outcomeOf]
  | some r' => cases r' <;> cases r <;> cases type <;> simp [outcomeOf, SkipReason.excludes]

variable (site : Site) (s : Source) (c : Cache)

/-- The items of an array with their own reference resolved. -/
theorem value_itemsOf (p : Property) :
    ((itemsOf site p).run s c).value =
      if p.effectiveType? = some "array" then
        p.items.map fun items => (Property.ofJson (Ref.expanded site s c items)).facets
      else none := by
  rw [itemsOf_eq]
  split
  · cases p.items <;> rfl
  · rfl

theorem value_typeOf (name : String) (p : Property) :
    ((typeOf site name p).run s c).value =
      (Abi.mapField name p.facets ((itemsOf site p).run s c).value).toOption := by
  rw [typeOf, run_bind]
  split <;> simp_all [Except.toOption]

/-- The type is looked for after the reference of the property, but what that has cached makes no
difference to it. -/
theorem value_decide (name : String) (property : Json) :
    ((decide site name property).run s c).value =
      outcomeOf (Property.ofJson (Ref.expanded site s c property)).skipReason
        ((typeOf site name (Property.ofJson (Ref.expanded site s c property))).run s c).value := by
  have hview := (@Ref.loadsFrom_expand site property).transparent.view_after s c
  have htype (p : Property) :
      ((typeOf site name p).run s ((Ref.expand site property).run s c).cache).value =
        ((typeOf site name p).run s c).value :=
    (loadsFrom_typeOf name p).transparent.value_eq hview
  rw [← htype]
  unfold decide outcomeOf Ref.expanded
  rw [run_bind]
  dsimp only
  generalize Property.ofJson ((Ref.expand site property).run s c).value = p
  cases p.skipReason with
  | none => rfl
  | some reason => cases reason <;> rfl

end Build

end OnchainSchema
