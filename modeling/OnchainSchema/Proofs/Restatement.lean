import Mathlib.Logic.Relation
import OnchainSchema.Proofs.EffectiveTypes
import OnchainSchema.Proofs.Precedence

/-!
Restating the types of a property: letters in another case, nulls beside a type, offers in another
order. Each is an edit in one place, and any number of edits, made or undone, leave the outcome.
-/
namespace OnchainSchema

open Fetch

/-- The value under a key is edited where it stands. No key of an object is there twice. -/
inductive EditAt (key : String) (edit : Json → Json → Prop) : Json → Json → Prop
  | mk {members : Members} {v v' : Json} (distinct : (Members.keys members).Nodup)
      (before : Members.get? key members = some v) (change : edit v v') :
      EditAt key edit (.obj members) (.obj (Members.put key v' members))

/-- Edits of the value of `type`. -/
inductive TypeEdit : Json → Json → Prop
  | letters {t t' : String} (same : Text.sameLetters t t') : TypeEdit (.str t) (.str t')
  | entry (es fs : List Json) {t t' : String} (same : Text.sameLetters t t') :
      TypeEdit (.arr (es ++ .str t :: fs)) (.arr (es ++ .str t' :: fs))
  /-- A null comes in; there has to be an entry that is none. -/
  | null (es fs : List Json) {t n : String} (null : TypeDecl.isNull n) (kept : .str t ∈ es ++ fs)
      (other : TypeDecl.isNull t = false) : TypeEdit (.arr (es ++ fs)) (.arr (es ++ .str n :: fs))

/-- Edits of the properties of a conditional. -/
inductive PropertiesEdit : Json → Json → Prop
  | reorder {ms ns : Members} (perm : ms.Perm ns) : PropertiesEdit (.obj ms) (.obj ns)
  | type (ms ns : Members) (key : String) {p p' : Json} (change : EditAt "type" TypeEdit p p') :
      PropertiesEdit (.obj (ms ++ (key, p) :: ns)) (.obj (ms ++ (key, p') :: ns))

/-- Edits of a member of a composition. -/
inductive BranchEdit : Json → Json → Prop
  | type {b b' : Json} (change : EditAt "type" TypeEdit b b') : BranchEdit b b'
  | conditional {keyword : String} (conditional : keyword ∈ Branch.conditionalKeywords)
      {b b' : Json} (change : EditAt keyword (EditAt "properties" PropertiesEdit) b b') :
      BranchEdit b b'

/-- Edits of the array of a composition. -/
inductive CompositionEdit : Json → Json → Prop
  | reorder {es fs : List Json} (perm : es.Perm fs) : CompositionEdit (.arr es) (.arr fs)
  | branch (es fs : List Json) {b b' : Json} (change : BranchEdit b b') :
      CompositionEdit (.arr (es ++ b :: fs)) (.arr (es ++ b' :: fs))

/-- Edits of the members of a schema that say its type. -/
inductive SchemaEdit : Json → Json → Prop
  | type {j j' : Json} (change : EditAt "type" TypeEdit j j') : SchemaEdit j j'
  | composition {keyword : String} (composition : keyword ∈ Shape.compositionKeywords)
      {j j' : Json} (change : EditAt keyword CompositionEdit j j') : SchemaEdit j j'
  /-- Two compositions share out their members anew. -/
  | exchange {members : Members} (distinct : (Members.keys members).Nodup)
      {keyword other : String} (composition : keyword ∈ Shape.compositionKeywords)
      (second : other ∈ Shape.compositionKeywords) (ne : keyword ≠ other)
      {es es' fs fs' : List Json} (before : Members.get? keyword members = some (.arr es))
      (beside : Members.get? other members = some (.arr fs)) (perm : (es ++ fs).Perm (es' ++ fs')) :
      SchemaEdit (.obj members)
        (.obj (Members.put other (.arr fs') (Members.put keyword (.arr es') members)))

/-- Edits of a property, in its own types or in those of its items. -/
inductive PropertyEdit : Json → Json → Prop
  | own {p p' : Json} (change : SchemaEdit p p') : PropertyEdit p p'
  | items {p p' : Json} (change : EditAt "items" SchemaEdit p p') : PropertyEdit p p'

/-- Edits one after the other, each made or undone. -/
def Restated : Json → Json → Prop := Relation.EqvGen PropertyEdit

/-- One schema reads as another with `v'` in place of `v`. -/
structure Rewrites (key : String) (v v' j j' : Json) : Prop where
  before : j.get? key = some v
  after : ∀ k, j'.get? k = if key = k then some v' else j.get? k

theorem Rewrites.here {key : String} {v v' j j' : Json} (h : Rewrites key v v' j j') :
    j'.get? key = some v' := by
  rw [h.after, if_pos rfl]

theorem Rewrites.elsewhere {key k : String} {v v' j j' : Json} (h : Rewrites key v v' j j')
    (hk : key ≠ k) : j'.get? k = j.get? k := by
  rw [h.after, if_neg hk]

theorem EditAt.rewrites {key : String} {edit : Json → Json → Prop} {j j' : Json}
    (h : EditAt key edit j j') : ∃ v v', edit v v' ∧ Rewrites key v v' j j' := by
  obtain ⟨-, hbefore, hchange⟩ := h
  exact ⟨_, _, hchange, hbefore, fun k => Members.get?_put key k _ _⟩

/-- What is written into a property is written into what its reference resolves to. -/
theorem rewrites_expanded_put {members : Members} (distinct : (Members.keys members).Nodup)
    {key : String} (hkey : key ≠ Ref.keyword) {v : Json}
    (before : Members.get? key members = some v) (v' : Json) (site : Site) (s : Source)
    (c : Cache) :
    Rewrites key v v' (Ref.expanded site s c (.obj members))
      (Ref.expanded site s c (.obj (Members.put key v' members))) := by
  refine ⟨?_, Ref.get?_expanded_put distinct hkey v'⟩
  rw [← Members.put_eq_self before, Ref.get?_expanded_put distinct hkey, if_pos rfl]

theorem EditAt.rewrites_expanded {key : String} (hkey : key ≠ Ref.keyword)
    {edit : Json → Json → Prop} {j j' : Json} (h : EditAt key edit j j') (site : Site) (s : Source)
    (c : Cache) :
    ∃ v v', edit v v' ∧ Rewrites key v v' (Ref.expanded site s c j) (Ref.expanded site s c j') := by
  obtain ⟨hdistinct, hbefore, hchange⟩ := h
  exact ⟨_, _, hchange, rewrites_expanded_put hdistinct hkey hbefore _ site s c⟩

/-- One list of a family is reordered and the others stay, so the whole is the same up to order. -/
theorem flatMap_perm_of_one {keys : List String} {k : String} {f f' : String → List String}
    (hperm : (f k).Perm (f' k)) (helse : ∀ x, k ≠ x → f x = f' x) :
    (keys.flatMap f).Perm (keys.flatMap f') := by
  refine List.Perm.flatMap_left _ fun x _ => ?_
  by_cases hx : k = x
  · exact hx ▸ hperm
  · rw [helse x hx]

/-- So it is where two lists are shared out anew. -/
theorem flatMap_perm_of_exchange {keys : List String} (hkeys : keys.Nodup) {k o : String}
    (hk : k ∈ keys) (ho : o ∈ keys) (hne : k ≠ o) {f f' : String → List String}
    (hperm : (f k ++ f o).Perm (f' k ++ f' o)) (helse : ∀ x, k ≠ x → o ≠ x → f x = f' x) :
    (keys.flatMap f).Perm (keys.flatMap f') := by
  have ho' : o ∈ keys.erase k := (List.mem_erase_of_ne hne.symm).mpr ho
  have hsplit (g : String → List String) :
      (keys.flatMap g).Perm ((g k ++ g o) ++ ((keys.erase k).erase o).flatMap g) := by
    have hkeys' : keys.Perm (k :: o :: (keys.erase k).erase o) :=
      (List.perm_cons_erase hk).trans ((List.perm_cons_erase ho').cons k)
    simpa using hkeys'.flatMap_right g
  have hrest : ((keys.erase k).erase o).flatMap f = ((keys.erase k).erase o).flatMap f' := by
    apply List.flatMap_congr
    intro x hx
    obtain ⟨hxo, hx⟩ := (hkeys.erase k).mem_erase_iff.mp hx
    exact helse x (hkeys.mem_erase_iff.mp hx).1.symm hxo.symm
  have hshared : ((f k ++ f o) ++ ((keys.erase k).erase o).flatMap f).Perm
      ((f' k ++ f' o) ++ ((keys.erase k).erase o).flatMap f') :=
    hrest ▸ hperm.append_right _
  exact ((hsplit f).trans hshared).trans (hsplit f').symm

/-- After an edit of `type` there is a declaration as before, of the same type. -/
theorem TypeEdit.primary? {v v' : Json} (h : TypeEdit v v') :
    ∃ decl decl', TypeDecl.ofJson? v = some decl ∧ TypeDecl.ofJson? v' = some decl' ∧
      decl.primary? = decl'.primary? := by
  cases h with
  | letters same =>
    exact ⟨_, _, rfl, rfl, congrArg some (Text.lower_eq_of_sameLetters same)⟩
  | entry es fs same =>
    refine ⟨_, _, rfl, rfl, ?_⟩
    rw [List.filterMap_append, List.filterMap_append]
    exact TypeDecl.primary?_union_sameLetters _ _ same
  | null es fs null kept other =>
    refine ⟨_, _, rfl, rfl, ?_⟩
    rw [List.filterMap_append, List.filterMap_append]
    refine TypeDecl.primary?_union_null _ _ null ?_ other
    rw [← List.filterMap_append]
    exact List.mem_filterMap.mpr ⟨_, kept, rfl⟩

theorem of?_of_rewrites {v v' j j' : Json} (hchange : TypeEdit v v')
    (h : Rewrites "type" v v' j j') :
    ∃ decl decl', TypeDecl.of? j = some decl ∧ TypeDecl.of? j' = some decl' ∧
      decl.primary? = decl'.primary? := by
  rw [TypeDecl.of?, TypeDecl.of?, h.before, h.here]
  exact hchange.primary?

theorem named?_of_typeEdit {j j' : Json} (h : EditAt "type" TypeEdit j j') :
    TypeDecl.named? j = TypeDecl.named? j' := by
  obtain ⟨v, v', hchange, hrewrites⟩ := h.rewrites
  obtain ⟨decl, decl', hdecl, hdecl', hprimary⟩ := of?_of_rewrites hchange hrewrites
  rw [TypeDecl.named?, TypeDecl.named?, hdecl, hdecl']
  exact hprimary

/-- The properties of a conditional offer the same types. -/
theorem PropertiesEdit.types_perm {v v' : Json} (h : PropertiesEdit v v') :
    ∃ ms ms', v = .obj ms ∧ v' = .obj ms' ∧
      ((ms.map Prod.snd).filterMap TypeDecl.named?).Perm
        ((ms'.map Prod.snd).filterMap TypeDecl.named?) := by
  cases h with
  | reorder perm => exact ⟨_, _, rfl, rfl, (perm.map _).filterMap _⟩
  | type ms ns key change =>
    refine ⟨_, _, rfl, rfl, ?_⟩
    simp only [List.map_append, List.map_cons, List.filterMap_append, List.filterMap_cons,
      named?_of_typeEdit change]
    exact .refl _

/-- A member of a composition offers the same types. -/
theorem BranchEdit.types_perm {b b' : Json} (h : BranchEdit b b') :
    (Branch.types b).Perm (Branch.types b') := by
  have hne : ∀ k ∈ Branch.conditionalKeywords, k ≠ "type" := by decide
  cases h with
  | type change =>
    obtain ⟨v, v', -, hrewrites⟩ := change.rewrites
    have hconditional : ∀ keyword ∈ Branch.conditionalKeywords,
        Branch.conditionalTypes b keyword = Branch.conditionalTypes b' keyword := by
      intro keyword hkeyword
      simp only [Branch.conditionalTypes, Branch.conditionalSchemas,
        hrewrites.elsewhere (hne keyword hkeyword).symm]
    rw [Branch.types, Branch.types, named?_of_typeEdit change, List.flatMap_congr hconditional]
  | @conditional keyword hkeyword _ _ change =>
    obtain ⟨v, v', hinner, hrewrites⟩ := change.rewrites
    obtain ⟨w, w', hchange, hproperties⟩ := hinner.rewrites
    obtain ⟨ms, ms', rfl, rfl, hperm⟩ := hchange.types_perm
    have hnamed : TypeDecl.named? b = TypeDecl.named? b' := by
      rw [TypeDecl.named?, TypeDecl.named?, TypeDecl.of?, TypeDecl.of?,
        hrewrites.elsewhere (hne keyword hkeyword)]
    rw [Branch.types, Branch.types, hnamed]
    -- Whatever else the member holds, only the list under `keyword` is another one.
    refine (flatMap_perm_of_one (k := keyword) ?_ fun k hk => ?_).append_left _
    · simp only [Branch.conditionalTypes, Branch.conditionalSchemas, hrewrites.before,
        hrewrites.here, Option.bind_some, hproperties.before, hproperties.here]
      exact hperm
    · simp only [Branch.conditionalTypes, Branch.conditionalSchemas, hrewrites.elsewhere hk]

theorem CompositionEdit.types_perm {v v' : Json} (h : CompositionEdit v v') :
    ∃ es es', v = .arr es ∧ v' = .arr es' ∧
      (es.flatMap Branch.types).Perm (es'.flatMap Branch.types) := by
  cases h with
  | reorder perm => exact ⟨_, _, rfl, rfl, perm.flatMap_right _⟩
  | branch es fs change =>
    refine ⟨_, _, rfl, rfl, ?_⟩
    rw [List.flatMap_append, List.flatMap_append, List.flatMap_cons, List.flatMap_cons]
    exact (change.types_perm.append_right _).append_left _

namespace Ladder

/-- Schemas that are at one place of the ladder, but for their items. -/
structure Alike (j j' : Json) : Prop where
  type : Property.SameRank (typeName? j) (typeName? j')
  override : j.textAt? "x-oma3-abi" = j'.textAt? "x-oma3-abi"
  pattern : j.textAt? "pattern" = j'.textAt? "pattern"
  skipReason : j.textAt? "x-oma3-skip-reason" = j'.textAt? "x-oma3-skip-reason"

theorem Alike.refl (j : Json) : Alike j j := ⟨.refl _, rfl, rfl, rfl⟩

/-- The keys that are read beside the type and the items. -/
def annotationKeys : List String := ["x-oma3-abi", "pattern", "x-oma3-skip-reason"]

/-- The keys that say the type of a schema. -/
def typeKeys : List String := "type" :: Shape.compositionKeywords

theorem typeName?_eq (j : Json) :
    typeName? j =
      match TypeDecl.of? j with
      | some decl => decl.primary?
      | none => Property.pick? (Property.offers j) :=
  Property.effectiveType?_ofJson j

theorem typeName?_congr {j j' : Json} (h : ∀ k ∈ typeKeys, j'.get? k = j.get? k) :
    typeName? j' = typeName? j := by
  have hshape : Shape.ofJson j' = Shape.ofJson j := Shape.ofJson_congr h
  unfold typeName? Property.effectiveType?
  rw [Property.ofJson, Property.ofJson, hshape]

theorem scalar_congr {t t' : Option String} (h : Property.SameRank t t')
    (pattern : Option String) : scalar t pattern = scalar t' pattern := by
  obtain rfl | ⟨u, u', rfl, rfl, hu, hu'⟩ := h
  · rfl
  · have hstring : ∀ {v : String}, v ∉ Property.ranked → scalar (some v) pattern = .string := by
      intro v hv
      unfold scalar
      split <;> simp_all [Property.ranked]
    rw [hstring hu, hstring hu']

theorem arrayOf?_congr {i i' : Json} (h : Alike i i') : arrayOf? i = arrayOf? i' := by
  rw [arrayOf?, arrayOf?, asksBytes32, asksBytes32, h.override, h.pattern,
    scalar_congr h.type]
  simp only [h.type.eq_none_iff, h.type.eq_some_iff (u := "array") (by decide)]

theorem type?_congr {resolve : Json → Json} {j j' : Json} (h : Alike j j')
    (hitems : Option.Rel (fun i i' => Alike (resolve i) (resolve i')) (j.get? "items")
      (j'.get? "items")) (name : String) : type? resolve name j = type? resolve name j' := by
  have harray : ((j.get? "items").bind fun items => arrayOf? (resolve items)) =
      (j'.get? "items").bind fun items => arrayOf? (resolve items) := by
    revert hitems
    generalize j.get? "items" = items, j'.get? "items" = items'
    rintro (halike | _)
    · exact arrayOf?_congr halike
    · rfl
  rw [type?, type?, asksBytes32, asksBytes32, h.override, h.pattern, scalar_congr h.type, harray]
  simp only [ne_eq, h.type.eq_some_iff (u := "array") (by decide)]

end Ladder

theorem sameRank_of_offers_perm {q q' : Json} (htype : q'.get? "type" = q.get? "type")
    (h : (Property.offers q).Perm (Property.offers q')) :
    Property.SameRank (Ladder.typeName? q) (Ladder.typeName? q') := by
  rw [Ladder.typeName?_eq, Ladder.typeName?_eq, TypeDecl.of?, TypeDecl.of?, htype]
  cases (q.get? "type").bind TypeDecl.ofJson? with
  | some decl => exact .refl _
  | none => exact Property.sameRank_pick?_of_perm h

theorem CompositionEdit.offers_perm {keyword : String} {v v' q q' : Json}
    (hchange : CompositionEdit v v') (h : Rewrites keyword v v' q q') :
    (Property.offers q).Perm (Property.offers q') := by
  obtain ⟨es, es', rfl, rfl, hperm⟩ := hchange.types_perm
  refine flatMap_perm_of_one (k := keyword) ?_ fun k hk => ?_
  · rw [Property.typesUnder_of_get?_eq h.before, Property.typesUnder_of_get?_eq h.here]
    exact hperm
  · rw [Property.typesUnder, Property.typesUnder, h.elsewhere hk]

theorem offers_perm_of_exchange {keyword other : String}
    (hkeyword : keyword ∈ Shape.compositionKeywords) (hother : other ∈ Shape.compositionKeywords)
    (hne : keyword ≠ other) {es es' fs fs' : List Json} {q m q' : Json}
    (h : Rewrites keyword (.arr es) (.arr es') q m) (h' : Rewrites other (.arr fs) (.arr fs') m q')
    (hperm : (es ++ fs).Perm (es' ++ fs')) :
    (Property.offers q).Perm (Property.offers q') := by
  refine flatMap_perm_of_exchange (by decide) hkeyword hother hne ?_ fun k hk hk' => ?_
  · rw [Property.typesUnder_of_get?_eq h.before,
      Property.typesUnder_of_get?_eq ((h.elsewhere hne).symm.trans h'.before),
      Property.typesUnder_of_get?_eq ((h'.elsewhere hne.symm).trans h.here),
      Property.typesUnder_of_get?_eq h'.here, ← List.flatMap_append, ← List.flatMap_append]
    exact hperm.flatMap_right _
  · rw [Property.typesUnder, Property.typesUnder, h'.elsewhere hk', h.elsewhere hk]

theorem composition_keyword_ne {keyword : String} (h : keyword ∈ Shape.compositionKeywords) :
    keyword ≠ Ref.keyword ∧ keyword ≠ "type" ∧ ∀ k, k ∉ Ladder.typeKeys → keyword ≠ k := by
  have hkeywords : ∀ k ∈ Shape.compositionKeywords, k ≠ Ref.keyword ∧ k ≠ "type" := by decide
  obtain ⟨href, htype⟩ := hkeywords keyword h
  exact ⟨href, htype, fun k hk he => hk (he ▸ List.mem_cons_of_mem _ h)⟩

/-- After an edit the reference of a schema brings in what it did, and nothing but the type of the
schema may read otherwise. -/
theorem SchemaEdit.sameRank_expanded {j j' : Json} (h : SchemaEdit j j') (site : Site) (s : Source)
    (c : Cache) :
    let q := Ref.expanded site s c j
    let q' := Ref.expanded site s c j'
    Property.SameRank (Ladder.typeName? q) (Ladder.typeName? q') ∧
      ∀ k, k ∉ Ladder.typeKeys → q'.get? k = q.get? k := by
  intro q q'
  cases h with
  | type change =>
    obtain ⟨v, v', hchange, hrewrites⟩ := change.rewrites_expanded (by decide) site s c
    obtain ⟨decl, decl', hdecl, hdecl', hprimary⟩ := of?_of_rewrites hchange hrewrites
    refine ⟨.inl ?_, fun k hk => hrewrites.elsewhere ?_⟩
    · rw [Ladder.typeName?_eq, Ladder.typeName?_eq, hdecl, hdecl']
      exact hprimary
    · rintro rfl
      exact hk List.mem_cons_self
  | composition hkeyword change =>
    obtain ⟨href, htype, helse⟩ := composition_keyword_ne hkeyword
    obtain ⟨v, v', hchange, hrewrites⟩ := change.rewrites_expanded href site s c
    exact ⟨sameRank_of_offers_perm (hrewrites.elsewhere htype) (hchange.offers_perm hrewrites),
      fun k hk => hrewrites.elsewhere (helse k hk)⟩
  | @exchange _ hdistinct _ _ hkeyword hother hne _ es' _ fs' hbefore hbeside hperm =>
    obtain ⟨href, htype, helse⟩ := composition_keyword_ne hkeyword
    obtain ⟨href', htype', helse'⟩ := composition_keyword_ne hother
    -- Two writes; in the schema between them a member may be there twice, or not at all.
    have hfirst := rewrites_expanded_put hdistinct href hbefore (.arr es') site s c
    have hbeside' := (Members.get?_put _ _ (.arr es') _).trans ((if_neg hne).trans hbeside)
    have hsecond := rewrites_expanded_put (Members.nodup_keys_put hdistinct) href' hbeside'
      (.arr fs') site s c
    exact ⟨sameRank_of_offers_perm ((hsecond.elsewhere htype').trans (hfirst.elsewhere htype))
        (offers_perm_of_exchange hkeyword hother hne hfirst hsecond hperm),
      fun k hk => (hsecond.elsewhere (helse' k hk)).trans (hfirst.elsewhere (helse k hk))⟩

namespace Ladder

theorem Alike.of_sameRank {j j' : Json} (htype : Property.SameRank (typeName? j) (typeName? j'))
    (helse : ∀ k ∈ annotationKeys, j'.get? k = j.get? k) : Alike j j' where
  type := htype
  override := (Json.textAt?_congr (helse _ (by decide))).symm
  pattern := (Json.textAt?_congr (helse _ (by decide))).symm
  skipReason := (Json.textAt?_congr (helse _ (by decide))).symm

theorem outcome_congr {resolve : Json → Json} {p p' : Json} (h : Alike (resolve p) (resolve p'))
    (hitems : Option.Rel (fun i i' => Alike (resolve i) (resolve i')) ((resolve p).get? "items")
      ((resolve p').get? "items")) (name : String) :
    outcome resolve name p = outcome resolve name p' := by
  rw [outcome, outcome, h.skipReason, type?_congr h hitems]

end Ladder

/-- An edited schema is where it was on the ladder, and its items are not touched. -/
theorem SchemaEdit.alike_expanded {j j' : Json} (h : SchemaEdit j j') (site : Site) (s : Source)
    (c : Cache) :
    Ladder.Alike (Ref.expanded site s c j) (Ref.expanded site s c j') ∧
      (Ref.expanded site s c j').get? "items" = (Ref.expanded site s c j).get? "items" := by
  obtain ⟨hrank, helse⟩ := h.sameRank_expanded site s c
  have hdisjoint : ∀ k ∈ Ladder.annotationKeys, k ∉ Ladder.typeKeys := by decide
  exact ⟨.of_sameRank hrank fun k hk => helse k (hdisjoint k hk), helse "items" (by decide)⟩

/-- One edit: the property and its items stay where they are on the ladder. -/
theorem PropertyEdit.value_decide_eq {p p' : Json} (h : PropertyEdit p p') (site : Site)
    (s : Source) (c : Cache) (name : String) :
    ((Build.decide site name p).run s c).value = ((Build.decide site name p').run s c).value := by
  rw [Ladder.value_decide_eq_outcome, Ladder.value_decide_eq_outcome]
  cases h with
  | own change =>
    obtain ⟨halike, hitems⟩ := change.alike_expanded site s c
    refine Ladder.outcome_congr halike ?_ name
    rw [hitems]
    cases (Ref.expanded site s c p).get? "items" with
    | none => exact .none
    | some items => exact .some (.refl _)
  | items change =>
    obtain ⟨i, i', hchange, hrewrites⟩ := change.rewrites_expanded (by decide) site s c
    -- The property reads as before but for its items; of these the edit is one of a schema.
    have helse : ∀ k ∈ Ladder.typeKeys ++ Ladder.annotationKeys, "items" ≠ k := by decide
    have hrank : Property.SameRank (Ladder.typeName? (Ref.expanded site s c p))
        (Ladder.typeName? (Ref.expanded site s c p')) :=
      .inl (Ladder.typeName?_congr fun k hk =>
        hrewrites.elsewhere (helse k (List.mem_append_left _ hk))).symm
    refine Ladder.outcome_congr (.of_sameRank hrank fun k hk =>
      hrewrites.elsewhere (helse k (List.mem_append_right _ hk))) ?_ name
    rw [hrewrites.before, hrewrites.here]
    exact .some (hchange.alike_expanded site s c).1

/-- Any number of edits, by induction on how they follow each other. -/
theorem Restated.value_decide_eq {p p' : Json} (h : Restated p p') (site : Site) (s : Source)
    (c : Cache) (name : String) :
    ((Build.decide site name p).run s c).value = ((Build.decide site name p').run s c).value := by
  induction h with
  | rel _ _ edit => exact edit.value_decide_eq site s c name
  | refl _ => rfl
  | symm _ _ _ ih => exact ih.symm
  | trans _ _ _ _ _ ih ih' => exact ih.trans ih'

namespace Build

/-- A property has the same outcome however its types are stated, by itself and among any other
properties, which keep theirs. -/
theorem restating_keeps_outcome {p p' : Json} (h : Restated p p') (site : Site) (s : Source)
    (c : Cache) (name : String) :
    ((decide site name p).run s c).value = ((decide site name p').run s c).value ∧
    ∀ before after : Members,
      ((ofProperties site (before ++ (name, p) :: after)).run s c).value =
        ((ofProperties site (before ++ (name, p') :: after)).run s c).value := by
  have houtcome := h.value_decide_eq site s c name
  refine ⟨houtcome, fun before after => ?_⟩
  have halone : alone site s c (name, p) = alone site s c (name, p') :=
    congrArg (Decision.mk name) houtcome
  have hdecisions : ((ofProperties site (before ++ (name, p) :: after)).run s c).value.decisions =
      ((ofProperties site (before ++ (name, p') :: after)).run s c).value.decisions := by
    rw [decisions_eq_map_alone, decisions_eq_map_alone, List.map_append, List.map_append,
      List.map_cons, List.map_cons, halone]
  exact congrArg Build.mk hdecisions

section Samples

def withType (types : Json) : Json := .obj [("type", types)]

def priced (oneOf anyOf : List Json) (items : String) : Json :=
  .obj [("oneOf", .arr oneOf), ("anyOf", .arr anyOf), ("items", withType (.str items))]

def ranged (ends : Members) : Json := .obj [("then", .obj [("properties", .obj ends)])]

/-- Offers change places, a null goes, and the items are written in capitals. -/
theorem prices_restated :
    let money := withType (.str "Money")
    let high := ("high", withType (.str "currency"))
    let low (types : List Json) := ("low", withType (.arr types))
    let price := priced [money, ranged [low [.str "Null", .str "Array"], high]] [money] "integer"
    let restated := priced [money] [ranged [high, low [.str "Array"]], money] "INTEGER"
    let outcome (p : Json) := ((decide ⟨.obj [], ⟨"."⟩⟩ "price" p).run noFiles Cache.empty).value
    outcome price = .included ⟨.uint256, true⟩ ∧
      outcome restated = .included ⟨.uint256, true⟩ := by
  intro money high low price restated outcome
  let price₁ := priced [money] [ranged [low [.str "Null", .str "Array"], high], money] "integer"
  let price₂ := priced [money] [ranged [low [.str "Array"], high], money] "integer"
  let price₃ := priced [money] [ranged [high, low [.str "Array"]], money] "integer"
  have hshared : PropertyEdit price price₁ :=
    .own (.exchange (by decide) (by decide) (by decide) (by decide : "oneOf" ≠ "anyOf") rfl rfl
      (.refl _))
  have hranged (ends ends' : Members) (h : PropertiesEdit (.obj ends) (.obj ends')) :
      PropertyEdit (priced [money] [ranged ends, money] "integer")
        (priced [money] [ranged ends', money] "integer") :=
    .own (.composition (by decide : "anyOf" ∈ _) (.mk (by simp) rfl (.branch [] [money]
      (.conditional (by decide : "then" ∈ _) (.mk (by simp) rfl (.mk (by simp) rfl h))))))
  have hnull : PropertyEdit price₂ price₁ := hranged _ _ (.type [] _ _ (.mk (by decide) rfl
    (.null [] _ (by decide) List.mem_cons_self (by decide))))
  have hreordered : PropertyEdit price₂ price₃ := hranged _ _ (.reorder (.swap _ _ _))
  have hletters : PropertyEdit price₃ restated :=
    .items (.mk (by decide) rfl (.type (.mk (by decide) rfl (.letters (by decide)))))
  have hrestated : Restated price restated :=
    (Relation.EqvGen.rel _ _ hshared).trans _ _ _ ((Relation.EqvGen.rel _ _ hnull).symm.trans _ _ _
      ((Relation.EqvGen.rel _ _ hreordered).trans _ _ _ (.rel _ _ hletters)))
  have houtcome : outcome price = .included ⟨.uint256, true⟩ := by decide +kernel
  exact ⟨houtcome, (restating_keeps_outcome hrestated _ _ _ _).1.symm.trans houtcome⟩

end Samples

end Build

end OnchainSchema
