import Mathlib.Data.List.Forall2
import OnchainSchema.Proofs.Compilation

/-!
Documentation stays off chain. Of the members of a property, and of those of its items, a build
reads the ones under a few keys. Two runs on properties that have these in common are the same run,
however the others differ and whatever order they stand in.
-/
namespace OnchainSchema

namespace Fetch

variable {α β γ δ : Type}

/-- Two computations that do the same and give related values. -/
def Agree (R : α → β → Prop) (x : Fetch α) (y : Fetch β) : Prop :=
  ∀ s c, R (x.run s c).value (y.run s c).value ∧ (x.run s c).cache = (y.run s c).cache ∧
    (x.run s c).journal = (y.run s c).journal

theorem agree_pure {R : α → β → Prop} {a : α} {b : β} (h : R a b) :
    Agree R (Pure.pure a) (Pure.pure b) :=
  fun _ _ => ⟨h, rfl, rfl⟩

theorem agree_refl {R : α → α → Prop} (h : ∀ a, R a a) (x : Fetch α) : Agree R x x :=
  fun _ _ => ⟨h _, rfl, rfl⟩

theorem Agree.bind {R : α → β → Prop} {S : γ → δ → Prop} {x : Fetch α} {y : Fetch β}
    {f : α → Fetch γ} {g : β → Fetch δ} (hx : Agree R x y)
    (hf : ∀ a b, R a b → Agree S (f a) (g b)) : Agree S (x >>= f) (y >>= g) := by
  intro s c
  obtain ⟨hvalue, hcache, hjournal⟩ := hx s c
  obtain ⟨hvalue', hcache', hjournal'⟩ := hf _ _ hvalue s (y.run s c).cache
  rw [run_bind, run_bind, hcache, hjournal]
  exact ⟨hvalue', hcache', congrArg _ hjournal'⟩

theorem Agree.eq {x y : Fetch α} (h : Agree Eq x y) : x = y := by
  funext s c
  obtain ⟨hvalue, hcache, hjournal⟩ := h s c
  have hrun : x.run s c = ⟨(y.run s c).value, (y.run s c).cache, (y.run s c).journal⟩ := by
    rw [← hvalue, ← hcache, ← hjournal]
  exact hrun

end Fetch

open Fetch

/-- The keys of a schema that bear on the layout, beside that of its items. -/
def layoutKeys : List String :=
  ["$ref", "type", "pattern", "oneOf", "anyOf", "allOf", "x-oma3-skip-reason", "x-oma3-abi"]

/-- Two schemas read alike as far as the layout goes; their items are related by `R`. -/
structure ReadAlike (R : Json → Json → Prop) (j j' : Json) : Prop where
  same : ∀ k ∈ layoutKeys, j'.get? k = j.get? k
  items : Option.Rel R (j.get? "items") (j'.get? "items")

/-- An object may lose, gain and change members under other keys, and any members may change places.
No key of an object is there twice. -/
inductive Reworded (R : Json → Json → Prop) : Json → Json → Prop
  | refl (j : Json) : Reworded R j j
  | object {ms ms' : Members} (distinct : (Members.keys ms).Nodup)
      (distinct' : (Members.keys ms').Nodup) (alike : ReadAlike R (.obj ms) (.obj ms')) :
      Reworded R (.obj ms) (.obj ms')

/-- The property, its items or both are documented otherwise. -/
def Redocumented : Json → Json → Prop := Reworded (Reworded Eq)

variable {site : Site} {R : Json → Json → Prop} {j j' : Json}

theorem optionRel_refl {α : Type} {R : α → α → Prop} (h : ∀ a, R a a) (o : Option α) :
    Option.Rel R o o := by
  cases o with
  | none => exact .none
  | some a => exact .some (h a)

theorem readAlike_refl (h : ∀ j, R j j) (j : Json) : ReadAlike R j j :=
  ⟨fun _ _ => rfl, optionRel_refl h _⟩

/-- The view of a schema shows only what the layout depends on. -/
theorem ReadAlike.ofJson_eq (h : ReadAlike R j j') :
    Property.ofJson j' = { Property.ofJson j with items := j'.get? "items" } := by
  have htypeKeys : ∀ k ∈ "type" :: Shape.compositionKeywords, k ∈ layoutKeys := by decide
  have hshape : Shape.ofJson j' = Shape.ofJson j :=
    Shape.ofJson_congr fun k hk => h.same k (htypeKeys k hk)
  have htext (k : String) (hk : k ∈ layoutKeys) : j'.textAt? k = j.textAt? k :=
    Json.textAt?_congr (h.same k hk)
  rw [Property.ofJson, hshape, htext "pattern" (by decide), SkipReason.of?,
    htext skipReasonKey (by decide), AbiOverride.of?, htext abiOverrideKey (by decide)]
  rfl

namespace Ref

/-- A target brings the same into both objects. -/
theorem readAlike_overlay (hR : ∀ j, R j j) {own own' : Members}
    (distinct : (Members.keys own).Nodup) (distinct' : (Members.keys own').Nodup)
    (h : ReadAlike R (.obj own) (.obj own')) (target : Members) :
    ReadAlike R (.obj (overlay target own)) (.obj (overlay target own')) where
  same k hk := by
    have hown : Members.get? k own' = Members.get? k own := h.same k hk
    change Members.get? k (overlay target own') = Members.get? k (overlay target own)
    rw [get?_overlay distinct, get?_overlay distinct', hown]
  items := by
    have hown : Option.Rel R (Members.get? "items" own) (Members.get? "items" own') := h.items
    change Option.Rel R (Members.get? "items" (overlay target own))
      (Members.get? "items" (overlay target own'))
    rw [get?_overlay distinct, get?_overlay distinct', if_neg (by decide), if_neg (by decide)]
    generalize Members.get? "items" own = items, Members.get? "items" own' = items' at hown
    cases hown with
    | some hitems => exact .some hitems
    | none => exact optionRel_refl hR _

theorem agree_expand (hR : ∀ j, R j j) (h : Reworded R j j') :
    Agree (ReadAlike R) (expand site j) (expand site j') := by
  cases h with
  | refl j => exact agree_refl (readAlike_refl hR) _
  | @object own own' distinct distinct' alike =>
    have href : (Json.obj own').textAt? keyword = (Json.obj own).textAt? keyword :=
      Json.textAt?_congr (alike.same keyword (by decide))
    unfold expand
    rw [href]
    cases (Json.obj own).textAt? keyword with
    | none => exact agree_pure alike
    | some ref =>
      refine (agree_refl Eq.refl (resolve site ref)).bind fun target _ htarget => ?_
      subst htarget
      cases target with
      | some node => exact agree_pure (readAlike_overlay hR distinct distinct' alike _)
      | none => exact (agree_refl Eq.refl _).bind fun _ _ _ => agree_pure alike

end Ref

namespace Build

theorem itemFacets_congr {items items' : Json} (h : Reworded Eq items items') :
    itemFacets site items' = itemFacets site items := by
  refine (Agree.eq ?_).symm
  refine (Ref.agree_expand Eq.refl h).bind fun q q' hq => agree_pure ?_
  rw [hq.ofJson_eq]
  rfl

/-- Items are looked at through their own reference. -/
theorem itemsOf_congr {p : Property} {items' : Option Json}
    (h : Option.Rel (Reworded Eq) p.items items') :
    itemsOf site { p with items := items' } = itemsOf site p := by
  obtain ⟨shape, pattern, items, skipReason, override⟩ := p
  have htype : (Property.mk shape pattern items' skipReason override).effectiveType? =
      (Property.mk shape pattern items skipReason override).effectiveType? := rfl
  rw [itemsOf_eq, itemsOf_eq, htype]
  dsimp only at h ⊢
  cases h with
  | none => rfl
  | @some i i' hitems =>
    have hfacets : itemFacets site i' = itemFacets site i := itemFacets_congr hitems
    dsimp only
    rw [hfacets]

theorem typeOf_congr {p : Property} {items' : Option Json}
    (h : Option.Rel (Reworded Eq) p.items items') (name : String) :
    typeOf site name { p with items := items' } = typeOf site name p := by
  have hfacets : ({ p with items := items' } : Property).facets = p.facets := rfl
  rw [typeOf, typeOf, itemsOf_congr h, hfacets]

theorem decide_congr {property property' : Json} (h : Redocumented property property')
    (name : String) : decide site name property' = decide site name property := by
  refine (Agree.eq ?_).symm
  refine (Ref.agree_expand Reworded.refl h).bind fun q q' hq => ?_
  have htype : typeOf site name (Property.ofJson q') = typeOf site name (Property.ofJson q) := by
    rw [hq.ofJson_eq]
    exact typeOf_congr hq.items name
  have hreason : (Property.ofJson q').skipReason = (Property.ofJson q).skipReason := by
    rw [hq.ofJson_eq]
  dsimp only
  rw [htype, hreason]
  exact agree_refl Eq.refl _

/-- Property by property. -/
theorem decisionsOf_congr {ps ps' : Members}
    (h : List.Forall₂ (fun m m' => m.1 = m'.1 ∧ Redocumented m.2 m'.2) ps ps') :
    decisionsOf site ps' = decisionsOf site ps := by
  induction h with
  | nil => rfl
  | @cons m m' ms ms' hm _ ih =>
    obtain ⟨name, property⟩ := m
    obtain ⟨name', property'⟩ := m'
    obtain ⟨hname, hproperty⟩ := hm
    dsimp only at hname hproperty
    subst hname
    rw [decisionsOf, decisionsOf, decide_congr hproperty, ih]

/-- Properties may be documented as one likes. Whatever the document, its directory, the source and
the cache are, the build has the same decisions and so the same fields, asks the source for the
same, logs the same and leaves the same cache. -/
theorem documentation_changes_nothing {ps ps' : Members}
    (h : List.Forall₂ (fun m m' => m.1 = m'.1 ∧ Redocumented m.2 m'.2) ps ps')
    (site : Site) (s : Source) (c : Cache) :
    let o := (ofProperties site ps).run s c
    let o' := (ofProperties site ps').run s c
    o'.value.decisions = o.value.decisions ∧ o'.value.fields = o.value.fields ∧
      o'.journal = o.journal ∧ o'.cache = o.cache := by
  intro o o'
  have ho : o' = o := by
    have hbuild : ofProperties site ps' = ofProperties site ps := by
      rw [ofProperties, ofProperties, decisionsOf_congr h]
    exact congrArg (fun x : Fetch Build => x.run s c) hbuild
  rw [ho]
  exact ⟨rfl, rfl, rfl, rfl⟩

section Samples

/-- A definition with a description and examples of its own. -/
def describedSite : Site :=
  ⟨.obj [("definitions", .obj [("Score", .obj [("description", .str "From 0 to 5"),
    ("type", .str "integer"), ("examples", .arr [.null])])])], ⟨"."⟩⟩

/-- Descriptions come and go, on a property, its items and what they refer to. -/
theorem described_scores_same :
    let ref : String × Json := ("$ref", .str "#/definitions/Score")
    let described (text : String) : String × Json := ("description", .str text)
    let type : String × Json := ("type", .str "array")
    let items (own : Members) : String × Json := ("items", .obj own)
    let before : Members := [("best", .obj [ref, described "The best"]),
      ("scores", .obj [type, items [ref, ("examples", .arr [])], described "All"])]
    let after : Members := [("best", .obj [ref]),
      ("scores", .obj [("if", typed "null"), items [described "One", ref], type])]
    let o (ps : Members) := (ofProperties describedSite ps).run noFiles Cache.empty
    (o before).value.decisions =
      [⟨"best", .included ⟨.uint256, false⟩⟩, ⟨"scores", .included ⟨.uint256, true⟩⟩] ∧
    (o after).value.decisions = (o before).value.decisions := by
  intro ref described type items before after o
  have hitems : Reworded Eq (.obj [ref, ("examples", .arr [])]) (.obj [described "One", ref]) :=
    .object (by decide) (by decide)
      ⟨by simp [layoutKeys, Json.get?, Members.get?, ref, described], .none⟩
  have hbest : Redocumented (.obj [ref, described "The best"]) (.obj [ref]) :=
    .object (by decide) (by decide)
      ⟨by simp [layoutKeys, Json.get?, Members.get?, ref, described], .none⟩
  have hscores : Redocumented
      (.obj [type, items [ref, ("examples", .arr [])], described "All"])
      (.obj [("if", typed "null"), items [described "One", ref], type]) :=
    .object (by decide) (by decide)
      ⟨by simp [layoutKeys, Json.get?, Members.get?, type, items, described], .some hitems⟩
  have hedited : List.Forall₂ (fun m m' => m.1 = m'.1 ∧ Redocumented m.2 m'.2) before after :=
    .cons ⟨rfl, hbest⟩ (.cons ⟨rfl, hscores⟩ .nil)
  have hsame := documentation_changes_nothing hedited describedSite noFiles Cache.empty
  exact ⟨by decide, hsame.1⟩

end Samples

end Build

end OnchainSchema
