import Mathlib.Logic.Relation
import Mathlib.Tactic.MkIffOfInductiveProp
import OnchainSchema.Record

/-!
What a record is read from. A text holds a record if each of its members stands in it once, in any
order and among any others, a missing resolver as null or not at all. From such a text the record is
read, and from no other.
-/
namespace OnchainSchema

namespace Json.Raw

/-- The values that stand under a key, however the letters of the key are written. -/
def under (key : String) (ms : List (List Glyph × Raw)) : List Raw :=
  (ms.filter fun m => decodeGlyphs m.1 = some key.toList).map Prod.snd

/-- A string that stands for the text, with escapes or without. -/
def Spells (e : Raw) (s : String) : Prop := ∃ gs, e = .string gs ∧ decodeGlyphs gs = some s.toList

@[simp] theorem under_nil (key : String) : under key [] = [] := rfl

theorem under_cons (key : String) (m : List Glyph × Raw) (ms : List (List Glyph × Raw)) :
    under key (m :: ms) =
      (if decodeGlyphs m.1 = some key.toList then [m.2] else []) ++ under key ms := by
  by_cases h : decodeGlyphs m.1 = some key.toList <;> simp [under, h]

theorem under_cons_of_ne {key : String} {m : List Glyph × Raw}
    (h : decodeGlyphs m.1 ≠ some key.toList) (ms : List (List Glyph × Raw)) :
    under key (m :: ms) = under key ms := by
  rw [under_cons, if_neg h, List.nil_append]

end Json.Raw

namespace Record

open Json Raw

/-- What is written for a resolver: a null if there is none. -/
def ResolverAs (e : Raw) : Option String → Prop
  | some a => e.Spells a
  | none => e = .null

/-- The members hold the record: each of its own once, but the resolver where there is none. Others
may hold anything under any name. -/
@[mk_iff]
structure OfMembers (r : Record) (ms : List (List Glyph × Raw)) : Prop where
  keys : ∀ m ∈ ms, (decodeGlyphs m.1).isSome
  name : ∃ e, under "name" ms = [e] ∧ e.Spells r.name
  schema : ∃ e, under "schema" ms = [e] ∧ e.Spells r.schema
  revocable : under "revocable" ms = [.bool r.revocable]
  resolver : (under "resolver" ms = [] ∧ r.resolver = none) ∨
    ∃ e, under "resolver" ms = [e] ∧ ResolverAs e r.resolver

/-- A text holds a record by its members, or by its four values in their order. -/
inductive HeldIn (r : Record) : Raw → Prop
  | members {ms : List (List Glyph × Raw)} (h : r.OfMembers ms) : HeldIn r (.object ms)
  | values {name schema resolver : Raw} (hname : name.Spells r.name)
      (hschema : schema.Spells r.schema) (hresolver : ResolverAs resolver r.resolver) :
      HeldIn r (.array [name, schema, .bool r.revocable, resolver])

theorem text?_eq_some_iff {e : Raw} {s : String} : text? e = some s ↔ e.Spells s := by
  unfold text? Spells
  split
  next gs =>
    simp only [Option.map_eq_some_iff, Raw.string.injEq, exists_eq_left']
    constructor
    · rintro ⟨cs, hcs, rfl⟩
      rw [hcs, String.toList_ofList]
    · exact fun h => ⟨s.toList, h, String.ofList_toList⟩
  next hno =>
    refine iff_of_false (by simp) ?_
    rintro ⟨gs, rfl, -⟩
    exact hno gs rfl

theorem flag?_eq_some_iff {e : Raw} {b : Bool} : flag? e = some b ↔ e = .bool b := by
  cases e <;> simp [flag?]

theorem resolverAs_null {a : Option String} : ResolverAs .null a ↔ a = none := by
  cases a <;> simp [ResolverAs, Spells]

theorem resolver?_eq_some_iff {e : Raw} {a : Option String} :
    resolver? e = some a ↔ ResolverAs e a := by
  cases e with
  | null => simp [resolver?, resolverAs_null, eq_comm]
  | _ => cases a <;> simp [resolver?, ResolverAs, text?_eq_some_iff]

section Places

variable {β : Type} {read : Raw → Option β}

/-- The place of a draft for one member, after these values have come to it: only one may. -/
def fill (read : Raw → Option β) : Option β → List Raw → Option (Option β)
  | place, [] => some place
  | none, [e] => (read e).map some
  | _, _ => none

theorem fill_append (place : Option β) (es fs : List Raw) :
    fill read place (es ++ fs) = (fill read place es).bind (fill read · fs) := by
  cases es with
  | nil => rfl
  | cons e es =>
    cases place with
    | some v => simp [fill]
    | none =>
      cases es with
      | nil =>
        -- Whatever comes after the one value is one too many.
        cases fs with
        | nil => simp [fill]
        | cons f fs => cases h : read e <;> simp [fill, h]
      | cons e' es => rfl

theorem fill_none_eq_some_some_iff {es : List Raw} {v : β} :
    fill read none es = some (some v) ↔ ∃ e, es = [e] ∧ read e = some v := by
  rcases es with _ | ⟨e, _ | ⟨e', es⟩⟩ <;> simp [fill]

theorem fill_none_eq_some_none_iff {es : List Raw} : fill read none es = some none ↔ es = [] := by
  rcases es with _ | ⟨e, _ | ⟨e', es⟩⟩ <;> simp [fill]

end Places

namespace Draft

variable {d d' : Draft}

/-- The values that have come, by their keys, take a draft to another. -/
def Takes (d : Draft) (came : String → List Raw) (d' : Draft) : Prop :=
  fill text? d.name (came "name") = some d'.name ∧
  fill text? d.schema (came "schema") = some d'.schema ∧
  fill flag? d.revocable (came "revocable") = some d'.revocable ∧
  fill resolver? d.resolver (came "resolver") = some d'.resolver

theorem takes_nil : d.Takes (fun _ => []) d' ↔ d = d' := by
  obtain ⟨name, schema, revocable, resolver⟩ := d
  obtain ⟨name', schema', revocable', resolver'⟩ := d'
  simp [Takes, fill]

theorem takes_append {came later : String → List Raw} :
    d.Takes (fun key => came key ++ later key) d' ↔ ∃ d₁, d.Takes came d₁ ∧ d₁.Takes later d' := by
  simp only [Takes, fill_append, Option.bind_eq_some_iff]
  constructor
  · rintro ⟨⟨name, h₁, h₁'⟩, ⟨schema, h₂, h₂'⟩, ⟨revocable, h₃, h₃'⟩, resolver, h₄, h₄'⟩
    exact ⟨⟨name, schema, revocable, resolver⟩, ⟨h₁, h₂, h₃, h₄⟩, h₁', h₂', h₃', h₄'⟩
  · rintro ⟨d₁, ⟨h₁, h₂, h₃, h₄⟩, h₁', h₂', h₃', h₄'⟩
    exact ⟨⟨_, h₁, h₁'⟩, ⟨_, h₂, h₂'⟩, ⟨_, h₃, h₃'⟩, _, h₄, h₄'⟩

/-- One member comes to the place of its name, if there is one. -/
theorem add_eq_some_iff {key : String} {e : Raw} :
    d.add key e = some d' ↔ d.Takes (fun k => if key = k then [e] else []) d' := by
  obtain ⟨name, schema, revocable, resolver⟩ := d
  obtain ⟨name', schema', revocable', resolver'⟩ := d'
  unfold add Takes
  split
  next h =>
    subst h
    cases name <;> cases htext : text? e <;> simp [fill, htext]
  split
  next h =>
    subst h
    cases schema <;> cases htext : text? e <;> simp [fill, htext, and_left_comm]
  split
  next h =>
    subst h
    cases revocable <;> cases hflag : flag? e <;> simp [fill, hflag]
  split
  next h =>
    subst h
    cases resolver <;> cases hresolver : resolver? e <;> simp [fill, hresolver]
  next hname hschema hrevocable hresolver =>
    simp [fill, hname, hschema, hrevocable, hresolver]

/-- All members come to their places, if their keys are texts. -/
theorem addAll_eq_some_iff {ms : List (List Glyph × Raw)} :
    d.addAll ms = some d' ↔
      (∀ m ∈ ms, (decodeGlyphs m.1).isSome) ∧ d.Takes (fun key => under key ms) d' := by
  induction ms generalizing d with
  | nil => simpa [addAll] using takes_nil.symm
  | cons m ms ih =>
    obtain ⟨k, e⟩ := m
    rw [addAll]
    cases hk : decodeGlyphs k with
    | none => simp [hk]
    | some key =>
      have hcame : (fun name => under name ((k, e) :: ms)) =
          fun name => (if String.ofList key = name then [e] else []) ++ under name ms := by
        funext name
        rw [under_cons, hk]
        simp [← String.toList_inj]
      simp only [Option.bind_eq_some_iff, add_eq_some_iff, ih, hcame, takes_append,
        List.forall_mem_cons, hk, Option.isSome_some, true_and]
      constructor
      · rintro ⟨d₁, hfirst, hkeys, hrest⟩
        exact ⟨hkeys, d₁, hfirst, hrest⟩
      · rintro ⟨hkeys, d₁, hfirst, hrest⟩
        exact ⟨d₁, hfirst, hkeys, hrest⟩

theorem finish_eq_some_iff {r : Record} :
    d.finish = some r ↔ d.name = some r.name ∧ d.schema = some r.schema ∧
      d.revocable = some r.revocable ∧ d.resolver.join = r.resolver := by
  obtain ⟨name, schema, revocable, resolver⟩ := d
  obtain ⟨name', schema', revocable', resolver'⟩ := r
  cases name <;> cases schema <;> cases revocable <;> simp [finish]

end Draft

/-- From members the record is read that they hold. -/
theorem finish_addAll_eq_some_iff {ms : List (List Glyph × Raw)} {r : Record} :
    (Draft.addAll {} ms).bind Draft.finish = some r ↔ r.OfMembers ms := by
  simp only [Option.bind_eq_some_iff, Draft.addAll_eq_some_iff, Draft.finish_eq_some_iff]
  constructor
  · rintro ⟨d, ⟨hkeys, hname, hschema, hrevocable, hresolver⟩, h₁, h₂, h₃, h₄⟩
    rw [h₁, fill_none_eq_some_some_iff] at hname
    rw [h₂, fill_none_eq_some_some_iff] at hschema
    rw [h₃, fill_none_eq_some_some_iff] at hrevocable
    simp only [text?_eq_some_iff, flag?_eq_some_iff, exists_eq_right] at hname hschema hrevocable
    refine ⟨hkeys, hname, hschema, hrevocable, ?_⟩
    cases hplace : d.resolver with
    | none =>
      rw [hplace] at h₄ hresolver
      exact .inl ⟨fill_none_eq_some_none_iff.mp hresolver, h₄.symm⟩
    | some a =>
      rw [hplace] at h₄ hresolver
      obtain ⟨e, hunder, he⟩ := fill_none_eq_some_some_iff.mp hresolver
      obtain rfl : a = r.resolver := h₄
      exact .inr ⟨e, hunder, resolver?_eq_some_iff.mp he⟩
  · rintro ⟨hkeys, ⟨e₁, hname, h₁⟩, ⟨e₂, hschema, h₂⟩, hrevocable, hresolver⟩
    -- Two drafts finish as a record without a resolver: one that has seen a null, and one that has
    -- seen nothing.
    have hplace : ∃ place, fill resolver? none (under "resolver" ms) = some place ∧
        place.join = r.resolver := by
      rcases hresolver with ⟨hunder, hnone⟩ | ⟨e, hunder, he⟩
      · exact ⟨none, fill_none_eq_some_none_iff.mpr hunder, hnone.symm⟩
      · have hread := resolver?_eq_some_iff.mpr he
        exact ⟨some r.resolver, fill_none_eq_some_some_iff.mpr ⟨e, hunder, hread⟩, rfl⟩
    obtain ⟨place, hfill, hjoin⟩ := hplace
    refine ⟨⟨some r.name, some r.schema, some r.revocable, place⟩, ⟨hkeys, ?_, ?_, ?_, hfill⟩,
      rfl, rfl, rfl, hjoin⟩
    · exact fill_none_eq_some_some_iff.mpr ⟨e₁, hname, text?_eq_some_iff.mpr h₁⟩
    · exact fill_none_eq_some_some_iff.mpr ⟨e₂, hschema, text?_eq_some_iff.mpr h₂⟩
    · exact fill_none_eq_some_some_iff.mpr ⟨_, hrevocable, rfl⟩

theorem ofValues?_eq_some_iff {es : List Raw} {r : Record} :
    ofValues? es = some r ↔ r.HeldIn (.array es) := by
  constructor
  · intro h
    unfold ofValues? at h
    split at h
    next e₁ e₂ e₃ e₄ =>
      simp only [bind, pure, Option.bind_eq_some_iff, Option.some.injEq] at h
      obtain ⟨name, h₁, schema, h₂, revocable, h₃, resolver, h₄, rfl⟩ := h
      obtain rfl := flag?_eq_some_iff.mp h₃
      exact .values (text?_eq_some_iff.mp h₁) (text?_eq_some_iff.mp h₂)
        (resolver?_eq_some_iff.mp h₄)
    next => cases h
  · rintro (_ | ⟨h₁, h₂, h₄⟩)
    rw [ofValues?, text?_eq_some_iff.mpr h₁, text?_eq_some_iff.mpr h₂,
      resolver?_eq_some_iff.mpr h₄]
    rfl

/-- A record is read from the texts that hold it, and from no others. -/
theorem read?_eq_some_iff {s : String} {r : Record} :
    read? s = some r ↔ ∃ e, Grammar.document? s = some e ∧ r.HeldIn e := by
  unfold read?
  constructor
  · intro h
    split at h
    next ms hdocument => exact ⟨_, hdocument, .members (finish_addAll_eq_some_iff.mp h)⟩
    next es hdocument => exact ⟨_, hdocument, ofValues?_eq_some_iff.mp h⟩
    next => cases h
  · rintro ⟨e, hdocument, hheld⟩
    rw [hdocument]
    cases hheld with
    | members h => exact finish_addAll_eq_some_iff.mpr h
    | values hname hschema hresolver =>
      exact ofValues?_eq_some_iff.mpr (.values hname hschema hresolver)

section Edits

variable {r : Record} {ms ms' : List (List Glyph × Raw)}

def memberNames : List String := ["name", "schema", "revocable", "resolver"]

/-- An edit of the members that tells a reader of records nothing: another order, a member of
another name, or a null where no resolver stands. -/
inductive MemberEdit : List (List Glyph × Raw) → List (List Glyph × Raw) → Prop
  | order {ms ms' : List (List Glyph × Raw)} (h : ms.Perm ms') : MemberEdit ms ms'
  | other {k : List Glyph} {key : List Char} {ms : List (List Glyph × Raw)} (e : Raw)
      (hkey : decodeGlyphs k = some key) (hother : String.ofList key ∉ memberNames) :
      MemberEdit ms ((k, e) :: ms)
  | null {k : List Glyph} {ms : List (List Glyph × Raw)}
      (hkey : decodeGlyphs k = some "resolver".toList) (hnone : under "resolver" ms = []) :
      MemberEdit ms ((k, .null) :: ms)

theorem OfMembers.perm (h : r.OfMembers ms) (hperm : ms.Perm ms') : r.OfMembers ms' := by
  have hunder (key : String) : (under key ms).Perm (under key ms') := (hperm.filter _).map _
  have hone {key : String} {e : Raw} (he : under key ms = [e]) : under key ms' = [e] :=
    (List.singleton_perm.mp (he ▸ hunder key)).symm
  obtain ⟨hkeys, ⟨e₁, hname, h₁⟩, ⟨e₂, hschema, h₂⟩, hrevocable, hresolver⟩ := h
  refine ⟨fun m hm => hkeys m (hperm.mem_iff.mpr hm), ⟨e₁, hone hname, h₁⟩, ⟨e₂, hone hschema, h₂⟩,
    hone hrevocable, ?_⟩
  rcases hresolver with ⟨hnil, hnone⟩ | ⟨e, he, hresolver⟩
  · exact .inl ⟨List.nil_perm.mp (hnil ▸ hunder "resolver"), hnone⟩
  · exact .inr ⟨e, hone he, hresolver⟩

theorem MemberEdit.ofMembers_iff (h : MemberEdit ms ms') : r.OfMembers ms ↔ r.OfMembers ms' := by
  cases h with
  | order h => exact ⟨fun hms => hms.perm h, fun hms => hms.perm h.symm⟩
  | @other k key _ e hkey hother =>
    have hunder {name : String} (hname : name ∈ memberNames) :
        under name ((k, e) :: ms) = under name ms := by
      refine under_cons_of_ne (fun hk => hother ?_) ms
      rw [hkey, Option.some.injEq] at hk
      rwa [hk, String.ofList_toList]
    rw [Record.ofMembers_iff, Record.ofMembers_iff, hunder (by decide), hunder (by decide),
      hunder (by decide), hunder (by decide)]
    simp [hkey]
  | @null k _ hkey hnone =>
    have hunder {name : String} (hname : "resolver" ≠ name) :
        under name ((k, .null) :: ms) = under name ms := by
      refine under_cons_of_ne (fun hk => hname ?_) ms
      rwa [hkey, Option.some.injEq, String.toList_inj] at hk
    have hnull : under "resolver" ((k, .null) :: ms) = [.null] := by
      rw [under_cons, if_pos hkey, hnone]
      rfl
    rw [Record.ofMembers_iff, Record.ofMembers_iff, hunder (by decide), hunder (by decide),
      hunder (by decide), hnull, hnone]
    simp [hkey, resolverAs_null]

/-- Edits one after the other, each made or undone, leave a text that the same is read from. -/
theorem read?_eq_of_edits {s s' : String} (hs : Grammar.document? s = some (.object ms))
    (hs' : Grammar.document? s' = some (.object ms')) (h : Relation.EqvGen MemberEdit ms ms') :
    read? s' = read? s := by
  have hiff (r : Record) : r.OfMembers ms ↔ r.OfMembers ms' := by
    clear hs hs'
    induction h with
    | rel ms ms' h => exact h.ofMembers_iff
    | refl ms => exact Iff.rfl
    | symm ms ms' _ ih => exact ih.symm
    | trans ms ms₁ ms' _ _ ih ih' => exact ih.trans ih'
  unfold read?
  rw [hs, hs']
  ext r
  rw [finish_addAll_eq_some_iff, finish_addAll_eq_some_iff, hiff r]

end Edits

end Record

end OnchainSchema
