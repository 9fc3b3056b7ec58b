import OnchainSchema.Proofs.EffectiveTypes
import OnchainSchema.Proofs.LowerCase

/-!
What the effective type of a schema means. A schema that declares a type has that one; any other has
the highest of the types that its compositions offer as a set, and where none of them has a rank,
the one that is offered first.
-/
namespace OnchainSchema

/-! Scans. What a scan finds has a position, which is a list of numbers. Positions are compared
number by number, and a position comes before those that continue it. -/
section Scans

variable {α β : Type}

/-- Something is found, and nothing at any position before it. -/
def FoundFirst (R : List Nat → α → Prop) (a : α) : Prop :=
  ∃ p, R p a ∧ ∀ q b, R q b → ¬ List.Lex (· < ·) q p

/-- The list holds what is found, and begins with what is found first. -/
structure Scans (R : List Nat → α → Prop) (l : List α) : Prop where
  mem_iff : ∀ a, a ∈ l ↔ ∃ p, R p a
  head?_iff : ∀ a, l.head? = some a ↔ FoundFirst R a

/-- What is found in the elements of a list, one after the other. -/
def InEach (xs : List β) (R : β → List Nat → α → Prop) (p : List Nat) (a : α) : Prop :=
  ∃ i x q, p = i :: q ∧ xs[i]? = some x ∧ R x q a

theorem Scans.congr {R R' : List Nat → α → Prop} {l : List α} (h : Scans R l)
    (hR : ∀ p a, R' p a ↔ R p a) : Scans R' l := by
  have heq : R' = R := funext fun p => funext fun a => propext (hR p a)
  exact heq ▸ h

theorem Scans.head?_eq_none_iff {R : List Nat → α → Prop} {l : List α} (h : Scans R l) :
    l.head? = none ↔ ∀ p a, ¬ R p a := by
  rw [List.head?_eq_none_iff, List.eq_nil_iff_forall_not_mem]
  simp only [h.mem_iff, not_exists]
  exact forall_comm

theorem scans_nil : Scans (fun _ _ => False : List Nat → α → Prop) [] :=
  ⟨fun _ => by simp, fun _ => by simp [FoundFirst]⟩

/-- What has the empty position is found before everything else. -/
theorem Scans.toList_append {R : List Nat → α → Prop} {l : List α} (h : Scans R l)
    (hnil : ∀ a, ¬ R [] a) (o : Option α) :
    Scans (fun p a => p = [] ∧ o = some a ∨ R p a) (o.toList ++ l) := by
  cases o with
  | none => exact h.congr fun p a => by simp
  | some t =>
    refine ⟨fun a => ?_, fun a => ?_⟩
    · rw [Option.toList_some, List.singleton_append, List.mem_cons, h.mem_iff]
      constructor
      · rintro (rfl | ⟨p, hp⟩)
        · exact ⟨[], .inl ⟨rfl, rfl⟩⟩
        · exact ⟨p, .inr hp⟩
      · rintro ⟨p, ⟨-, ht⟩ | hp⟩
        · exact .inl (Option.some.inj ht).symm
        · exact .inr ⟨p, hp⟩
    · rw [Option.toList_some, List.singleton_append, List.head?_cons]
      constructor
      · intro ht
        exact ⟨[], .inl ⟨rfl, ht⟩, fun _ _ _ => List.not_lex_nil⟩
      · rintro ⟨p, ⟨-, ht⟩ | hp, hleast⟩
        · exact ht
        · cases p with
          | nil => exact absurd hp (hnil a)
          | cons i p => exact absurd .nil (hleast [] t (.inl ⟨rfl, rfl⟩))

theorem scans_toList (o : Option α) : Scans (fun p a => p = [] ∧ o = some a) o.toList := by
  have h := scans_nil.toList_append (fun _ => id) o
  rw [List.append_nil] at h
  exact h.congr fun p a => by simp

/-- What is found first in the elements of a list is found first in one of them, and those before
it have nothing. -/
theorem foundFirst_inEach_iff {xs : List β} {R : β → List Nat → α → Prop} {a : α} :
    FoundFirst (InEach xs R) a ↔ ∃ before x after, xs = before ++ x :: after ∧
      FoundFirst (R x) a ∧ ∀ y ∈ before, ∀ q b, ¬ R y q b := by
  constructor
  · rintro ⟨-, ⟨i, x, p, rfl, hx, hp⟩, hleast⟩
    obtain ⟨hi, rfl⟩ := List.getElem?_eq_some_iff.mp hx
    refine ⟨xs.take i, xs[i], xs.drop (i + 1), by simp, ⟨p, hp, ?_⟩, ?_⟩
    · intro q b hq hlex
      exact hleast (i :: q) b ⟨i, _, q, rfl, hx, hq⟩ (.cons hlex)
    · intro y hy q b hq
      obtain ⟨j, hj, rfl⟩ := List.mem_take_iff_getElem.mp hy
      have hfound : xs[j]? = some xs[j] := List.getElem?_eq_getElem (by omega)
      exact hleast (j :: q) b ⟨j, _, q, rfl, hfound, hq⟩ (.rel (by omega))
  · rintro ⟨before, x, after, rfl, ⟨p, hp, hleast⟩, hbefore⟩
    refine ⟨before.length :: p, ⟨_, x, p, rfl, by simp, hp⟩, ?_⟩
    rintro - b ⟨i, y, q, rfl, hy, hq⟩ hlex
    rcases List.cons_lex_cons_iff.mp hlex with hi | ⟨rfl, hbelow⟩
    · rw [List.getElem?_append_left hi] at hy
      exact hbefore y (List.mem_of_getElem? hy) q b hq
    · rw [List.getElem?_append_right Nat.le.refl, Nat.sub_self] at hy
      obtain rfl := Option.some.inj hy
      exact hleast q b hq hbelow

theorem Scans.flatMap {R : β → List Nat → α → Prop} {f : β → List α}
    (h : ∀ x, Scans (R x) (f x)) (xs : List β) : Scans (InEach xs R) (xs.flatMap f) := by
  refine ⟨fun a => ?_, fun a => ?_⟩
  · rw [List.mem_flatMap]
    constructor
    · rintro ⟨x, hx, ha⟩
      obtain ⟨i, hi⟩ := List.mem_iff_getElem?.mp hx
      obtain ⟨q, hq⟩ := ((h x).mem_iff a).mp ha
      exact ⟨i :: q, i, x, q, rfl, hi, hq⟩
    · rintro ⟨-, i, x, q, -, hx, hq⟩
      exact ⟨x, List.mem_of_getElem? hx, ((h x).mem_iff a).mpr ⟨q, hq⟩⟩
  · rw [List.head?_flatMap, List.findSome?_eq_some_iff, foundFirst_inEach_iff]
    simp only [(h _).head?_iff, (h _).head?_eq_none_iff]

end Scans

namespace TypeDecl

theorem isNull_iff (name : String) : isNull name = true ↔ Text.lower name = "null" := by
  have hall : "null".toList.all (Text.AsciiLetter ·) = true := by decide
  have hletters : ∀ d ∈ "null".toList, Text.AsciiLetter d := by
    intro d hd
    exact of_decide_eq_true (List.all_eq_true.mp hall d hd)
  exact (Text.lower_eq_iff_sameLetters hletters).symm

theorem isNull_eq_false_iff (name : String) : isNull name = false ↔ Text.lower name ≠ "null" := by
  rw [← Bool.not_eq_true, isNull_iff]

/-- What the `type` of a schema says, if it is a string or a list: the string; or the first string
of the list that is not null; or, where all of them are null, the first; or nothing, where the list
has none. All in lower case. -/
inductive Declares (schema : Json) : Option String → Prop
  | one {t : String} (h : schema.get? "type" = some (.str t)) :
    Declares schema (some (Text.lower t))
  | listed {before after : List Json} {t : String}
    (h : schema.get? "type" = some (.arr (before ++ .str t :: after)))
    (hbefore : ∀ u, .str u ∈ before → Text.lower u = "null") (ht : Text.lower t ≠ "null") :
    Declares schema (some (Text.lower t))
  | null {before after : List Json} {t : String}
    (h : schema.get? "type" = some (.arr (before ++ .str t :: after)))
    (hnull : ∀ u, .str u ∈ before ++ .str t :: after → Text.lower u = "null")
    (hfirst : ∀ u, .str u ∉ before) : Declares schema (some (Text.lower t))
  | nothing {es : List Json} (h : schema.get? "type" = some (.arr es)) (hnone : ∀ u, .str u ∉ es) :
    Declares schema none

/-- Neither a string nor a list stands under `type`. -/
def Undeclared (schema : Json) : Prop :=
  (∀ t, schema.get? "type" ≠ some (.str t)) ∧ ∀ es, schema.get? "type" ≠ some (.arr es)

theorem text?_eq_some_iff {e : Json} {t : String} : e.text? = some t ↔ e = .str t := by
  cases e <;> simp [Json.text?]

/-- The first string of a list that satisfies `p`. -/
theorem find?_texts_eq_some_iff {es : List Json} {p : String → Bool} {t : String} :
    (es.filterMap Json.text?).find? p = some t ↔
      ∃ before after, es = before ++ .str t :: after ∧ p t = true ∧
        ∀ u, .str u ∈ before → p u = false := by
  rw [← List.head?_filter, List.filter_filterMap, List.head?_filterMap, List.findSome?_eq_some_iff]
  simp only [Option.filter_eq_some_iff, Option.filter_eq_none_iff, text?_eq_some_iff,
    Bool.not_eq_true]
  constructor
  · rintro ⟨before, e, after, rfl, ⟨rfl, ht⟩, hbefore⟩
    exact ⟨before, after, rfl, ht, fun u hu => hbefore _ hu u rfl⟩
  · rintro ⟨before, after, rfl, ht, hbefore⟩
    refine ⟨before, .str t, after, rfl, ⟨rfl, ht⟩, ?_⟩
    rintro - hu u rfl
    exact hbefore u hu

theorem head?_texts_eq_some_iff {es : List Json} {t : String} :
    (es.filterMap Json.text?).head? = some t ↔
      ∃ before after, es = before ++ .str t :: after ∧ ∀ u, .str u ∉ before := by
  have hall : (es.filterMap Json.text?).head? = (es.filterMap Json.text?).find? fun _ => true := by
    rw [← List.head?_filter, List.filter_true]
  rw [hall, find?_texts_eq_some_iff]
  simp

theorem mem_texts_iff {es : List Json} {t : String} :
    t ∈ es.filterMap Json.text? ↔ .str t ∈ es := by
  simp [List.mem_filterMap, text?_eq_some_iff]

theorem primary?_eq_of_find? {ns : List String} {t : String}
    (h : ns.find? (!isNull ·) = some t) : (union ns).primary? = some (Text.lower t) := by
  rw [primary?, h]
  rfl

theorem primary?_eq_of_head? {ns : List String} (h : ns.find? (!isNull ·) = none) :
    (union ns).primary? = ns.head?.map Text.lower := by
  rw [primary?, h, Option.none_or]

theorem find?_texts_eq_none_iff {es : List Json} :
    (es.filterMap Json.text?).find? (!isNull ·) = none ↔
      ∀ u, .str u ∈ es → Text.lower u = "null" := by
  simp only [List.find?_eq_none, mem_texts_iff, Bool.not_eq_true, Bool.not_eq_false', isNull_iff]

theorem declares_primary? {schema : Json} {decl : TypeDecl} (h : of? schema = some decl) :
    Declares schema decl.primary? := by
  obtain ⟨v, hv, hdecl⟩ := Option.bind_eq_some_iff.mp h
  cases v with
  | str t =>
    obtain rfl := Option.some.inj hdecl
    exact .one hv
  | arr es =>
    obtain rfl := Option.some.inj hdecl
    cases hfind : (es.filterMap Json.text?).find? (!isNull ·) with
    | some t =>
      rw [primary?_eq_of_find? hfind]
      obtain ⟨before, after, rfl, ht, hbefore⟩ := find?_texts_eq_some_iff.mp hfind
      simp only [Bool.not_eq_true', Bool.not_eq_false', isNull_iff, isNull_eq_false_iff]
        at ht hbefore
      exact .listed hv hbefore ht
    | none =>
      rw [primary?_eq_of_head? hfind]
      have hnull := find?_texts_eq_none_iff.mp hfind
      cases hhead : (es.filterMap Json.text?).head? with
      | some t =>
        obtain ⟨before, after, rfl, hfirst⟩ := head?_texts_eq_some_iff.mp hhead
        exact .null hv hnull hfirst
      | none =>
        refine .nothing hv fun u hu => ?_
        rw [← mem_texts_iff, List.head?_eq_none_iff.mp hhead] at hu
        exact List.not_mem_nil hu
  | _ => cases hdecl

theorem Declares.exists_decl {schema : Json} {r : Option String} (h : Declares schema r) :
    ∃ decl, of? schema = some decl ∧ decl.primary? = r := by
  cases h with
  | one h => exact ⟨_, by rw [of?, h]; rfl, rfl⟩
  | @listed before after t h hbefore ht =>
    refine ⟨_, by rw [of?, h]; rfl, primary?_eq_of_find? ?_⟩
    refine find?_texts_eq_some_iff.mpr ⟨before, after, rfl, ?_, fun u hu => ?_⟩
    · rw [Bool.not_eq_true', isNull_eq_false_iff]
      exact ht
    · rw [Bool.not_eq_false', isNull_iff]
      exact hbefore u hu
  | @null before after t h hnull hfirst =>
    refine ⟨_, by rw [of?, h]; rfl, ?_⟩
    rw [primary?_eq_of_head? (find?_texts_eq_none_iff.mpr hnull),
      head?_texts_eq_some_iff.mpr ⟨before, after, rfl, hfirst⟩]
    rfl
  | @nothing es h hnone =>
    have hnil : es.filterMap Json.text? = [] := by
      rw [List.eq_nil_iff_forall_not_mem]
      exact fun u hu => hnone u (mem_texts_iff.mp hu)
    exact ⟨_, by rw [of?, h]; rfl, by rw [hnil]; rfl⟩

/-- A declaration is what its schema says of its type. -/
theorem declares_iff {schema : Json} {r : Option String} :
    Declares schema r ↔ ∃ decl, of? schema = some decl ∧ decl.primary? = r := by
  constructor
  · exact Declares.exists_decl
  · rintro ⟨decl, hdecl, rfl⟩
    exact declares_primary? hdecl

theorem declares_some_iff {schema : Json} {t : String} :
    Declares schema (some t) ↔ named? schema = some t := by
  rw [declares_iff, named?, Option.bind_eq_some_iff]

theorem undeclared_iff {schema : Json} : Undeclared schema ↔ of? schema = none := by
  rw [of?, Option.bind_eq_none_iff, Undeclared]
  constructor
  · rintro ⟨hone, hlist⟩ v hv
    cases v with
    | str t => exact absurd hv (hone t)
    | arr es => exact absurd hv (hlist es)
    | _ => rfl
  · intro h
    constructor
    · exact fun t ht => Option.some_ne_none _ (h _ ht)
    · exact fun es hes => Option.some_ne_none _ (h _ hes)

end TypeDecl

namespace Branch

open TypeDecl

/-- The types that a member of a composition offers: its own first, then those of the properties
under its conditionals, by the conditional and the place of the property. -/
inductive Offers (member : Json) : List Nat → String → Prop
  | own {t : String} (h : Declares member (some t)) : Offers member [] t
  | conditional {i j : Nat} {keyword name : String} {branch property : Json} {ps : Members}
    {t : String} (hkeyword : conditionalKeywords[i]? = some keyword)
    (hbranch : member.get? keyword = some branch) (hps : branch.get? "properties" = some (.obj ps))
    (hproperty : ps[j]? = some (name, property)) (h : Declares property (some t)) :
    Offers member [i, j] t

theorem getElem?_conditionalSchemas {member property : Json} {keyword : String} {j : Nat} :
    (conditionalSchemas member keyword)[j]? = some property ↔
      ∃ branch ps name, member.get? keyword = some branch ∧
        branch.get? "properties" = some (.obj ps) ∧ ps[j]? = some (name, property) := by
  unfold conditionalSchemas
  split
  next ms hms =>
    obtain ⟨branch, hbranch, hproperties⟩ := Option.bind_eq_some_iff.mp hms
    simp [hbranch, hproperties]
  next hother =>
    refine iff_of_false (by simp) ?_
    rintro ⟨branch, ps, -, hbranch, hps, -⟩
    exact hother ps (Option.bind_eq_some_iff.mpr ⟨branch, hbranch, hps⟩)

theorem scans_types (member : Json) : Scans (Offers member) (types member) := by
  have hproperties (keyword : String) : Scans
      (InEach (conditionalSchemas member keyword)
        fun property p t => p = [] ∧ named? property = some t)
      (conditionalTypes member keyword) := by
    rw [conditionalTypes, List.filterMap_eq_flatMap_toList]
    exact Scans.flatMap (fun property => scans_toList (named? property)) _
  have hconditionals := Scans.flatMap hproperties conditionalKeywords
  refine (hconditionals.toList_append (fun t => ?_) (named? member)).congr fun p t => ?_
  · rintro ⟨i, x, q, h, -⟩
    cases h
  · constructor
    · intro h
      cases h with
      | own h => exact .inl ⟨rfl, declares_some_iff.mp h⟩
      | @conditional i j keyword name branch property ps t hkeyword hbranch hps hproperty h =>
        refine .inr ⟨i, keyword, [j], rfl, hkeyword, j, property, [], rfl, ?_, rfl, ?_⟩
        · exact getElem?_conditionalSchemas.mpr ⟨branch, ps, name, hbranch, hps, hproperty⟩
        · exact declares_some_iff.mp h
    · rintro (⟨rfl, h⟩ | ⟨i, keyword, -, rfl, hkeyword, j, property, -, rfl, hproperty, rfl, h⟩)
      · exact .own (declares_some_iff.mpr h)
      · obtain ⟨branch, ps, name, hbranch, hps, hproperty⟩ :=
          getElem?_conditionalSchemas.mp hproperty
        exact .conditional hkeyword hbranch hps hproperty (declares_some_iff.mpr h)

theorem Offers.exists_members {member : Json} {p : List Nat} {t : String}
    (h : Offers member p t) : ∃ ms, member = .obj ms := by
  have ht : t ∈ types member := ((scans_types member).mem_iff t).mpr ⟨p, h⟩
  cases member with
  | obj ms => exact ⟨ms, rfl⟩
  | _ =>
    rw [types_of_not_isObject rfl] at ht
    exact absurd ht List.not_mem_nil

end Branch

namespace Property

open TypeDecl

/-- The types that the members of the compositions of a schema offer, by the keyword and the place
of the member in its list. -/
inductive Offers (schema : Json) : List Nat → String → Prop
  | member {i j : Nat} {keyword : String} {members : List Json} {ms : Members} {p : List Nat}
    {t : String} (hkeyword : Shape.compositionKeywords[i]? = some keyword)
    (hmembers : schema.get? keyword = some (.arr members)) (hmember : members[j]? = some (.obj ms))
    (h : Branch.Offers (.obj ms) p t) : Offers schema (i :: j :: p) t

theorem getElem?_members {schema member : Json} {keyword : String} {j : Nat} :
    (((schema.get? keyword).bind Json.elems?).getD [])[j]? = some member ↔
      ∃ members, schema.get? keyword = some (.arr members) ∧ members[j]? = some member := by
  cases schema.get? keyword with
  | none => simp
  | some v => cases v <;> simp [Json.elems?]

theorem scans_offers (schema : Json) : Scans (Offers schema) (offers schema) := by
  have hmembers (keyword : String) : Scans
      (InEach (((schema.get? keyword).bind Json.elems?).getD []) Branch.Offers)
      (typesUnder schema keyword) :=
    Scans.flatMap Branch.scans_types _
  refine (Scans.flatMap hmembers Shape.compositionKeywords).congr fun p t => ?_
  constructor
  · rintro ⟨hkeyword, hmembers, hmember, h⟩
    exact ⟨_, _, _, rfl, hkeyword, _, _, _, rfl, getElem?_members.mpr ⟨_, hmembers, hmember⟩, h⟩
  · rintro ⟨i, keyword, -, rfl, hkeyword, j, member, q, rfl, hmember, h⟩
    obtain ⟨members, hmembers, hmember⟩ := getElem?_members.mp hmember
    obtain ⟨ms, rfl⟩ := h.exists_members
    exact .member hkeyword hmembers hmember h

/-- The schema offers the type somewhere. -/
def Offered (schema : Json) (t : String) : Prop := ∃ p, Offers schema p t

/-- The type is named before another in the order of ranks. -/
def Outranks (t u : String) : Prop := ranked.idxOf t < ranked.idxOf u

/-- What the effective type of a schema means. -/
inductive HasType (schema : Json) : Option String → Prop
  | declared {t : Option String} (h : Declares schema t) : HasType schema t
  | highest {t : String} (hopen : Undeclared schema) (hranked : t ∈ ranked)
    (hoffered : Offered schema t) (hhighest : ∀ u, Offered schema u → ¬ Outranks u t) :
    HasType schema (some t)
  | first {t : String} (hopen : Undeclared schema) (hunranked : ∀ u ∈ ranked, ¬ Offered schema u)
    (hfirst : FoundFirst (Offers schema) t) : HasType schema (some t)
  | untyped (hopen : Undeclared schema) (hnone : ∀ t, ¬ Offered schema t) : HasType schema none

theorem find?_eq_some_iff_idxOf {xs : List String} {p : String → Bool} {t : String} :
    xs.find? p = some t ↔
      t ∈ xs ∧ p t = true ∧ ∀ u, p u = true → ¬ xs.idxOf u < xs.idxOf t := by
  have hleast {t : String} (h : xs.find? p = some t) (u : String) (hu : p u = true) :
      ¬ xs.idxOf u < xs.idxOf t := by
    obtain ⟨ht, before, after, rfl, hbefore⟩ := List.find?_eq_some_iff_append.mp h
    have hmem {v : String} (hv : p v = true) : v ∉ before := by
      intro hin
      have hfails := hbefore v hin
      rw [hv] at hfails
      cases hfails
    rw [List.idxOf_append_of_notMem (hmem hu), List.idxOf_append_of_notMem (hmem ht),
      List.idxOf_cons_self]
    omega
  constructor
  · exact fun h => ⟨List.mem_of_find?_eq_some h, List.find?_some h, hleast h⟩
  · rintro ⟨hmem, ht, hbest⟩
    have hsome : (xs.find? p).isSome := List.find?_isSome.mpr ⟨t, hmem, ht⟩
    obtain ⟨t', ht'⟩ := Option.isSome_iff_exists.mp hsome
    have hle := hleast ht' t ht
    have hge := hbest t' (List.find?_some ht')
    have hsame : xs.idxOf t = xs.idxOf t' := by omega
    rw [ht', (List.idxOf_inj hmem).mp hsame]

theorem find?_ranked_eq_some_iff {schema : Json} {t : String} :
    ranked.find? ((offers schema).contains ·) = some t ↔
      t ∈ ranked ∧ Offered schema t ∧ ∀ u, Offered schema u → ¬ Outranks u t := by
  simp only [find?_eq_some_iff_idxOf, List.contains_iff_mem, (scans_offers schema).mem_iff]
  rfl

theorem find?_ranked_eq_none_iff {schema : Json} :
    ranked.find? ((offers schema).contains ·) = none ↔ ∀ u ∈ ranked, ¬ Offered schema u := by
  simp only [List.find?_eq_none, List.contains_iff_mem, (scans_offers schema).mem_iff]
  rfl

theorem offers_eq_nil_iff {schema : Json} : offers schema = [] ↔ ∀ t, ¬ Offered schema t := by
  simp only [List.eq_nil_iff_forall_not_mem, (scans_offers schema).mem_iff]
  rfl

theorem effectiveType?_of_undeclared {schema : Json} (h : Undeclared schema) :
    (ofJson schema).effectiveType? = pick? (offers schema) := by
  rw [effectiveType?_ofJson, undeclared_iff.mp h]

theorem hasType_effectiveType? (schema : Json) : HasType schema (ofJson schema).effectiveType? := by
  cases hdecl : of? schema with
  | some decl =>
    rw [effectiveType?_ofJson, hdecl]
    exact .declared (declares_primary? hdecl)
  | none =>
    have hopen := undeclared_iff.mpr hdecl
    rw [effectiveType?_of_undeclared hopen, pick?]
    cases hfind : ranked.find? ((offers schema).contains ·) with
    | some t =>
      obtain ⟨hranked, hoffered, hhighest⟩ := find?_ranked_eq_some_iff.mp hfind
      exact .highest hopen hranked hoffered hhighest
    | none =>
      rw [Option.none_or]
      cases hhead : (offers schema).head? with
      | some t =>
        have hfirst := ((scans_offers schema).head?_iff t).mp hhead
        exact .first hopen (find?_ranked_eq_none_iff.mp hfind) hfirst
      | none => exact .untyped hopen (offers_eq_nil_iff.mp (List.head?_eq_none_iff.mp hhead))

theorem HasType.effectiveType?_eq {schema : Json} {t : Option String} (h : HasType schema t) :
    (ofJson schema).effectiveType? = t := by
  cases h with
  | declared h =>
    obtain ⟨decl, hdecl, rfl⟩ := declares_iff.mp h
    rw [effectiveType?_ofJson, hdecl]
  | highest hopen hranked hoffered hhighest =>
    rw [effectiveType?_of_undeclared hopen, pick?,
      find?_ranked_eq_some_iff.mpr ⟨hranked, hoffered, hhighest⟩, Option.some_or]
  | first hopen hunranked hfirst =>
    rw [effectiveType?_of_undeclared hopen, pick?, find?_ranked_eq_none_iff.mpr hunranked,
      Option.none_or]
    exact ((scans_offers schema).head?_iff _).mpr hfirst
  | untyped hopen hnone =>
    rw [effectiveType?_of_undeclared hopen, offers_eq_nil_iff.mpr hnone]
    rfl

/-- The effective type of any schema is the one that it means, and no schema means two. -/
theorem effectiveType?_eq_iff_hasType (schema : Json) (t : Option String) :
    (ofJson schema).effectiveType? = t ↔ HasType schema t := by
  constructor
  · rintro rfl
    exact hasType_effectiveType? schema
  · exact HasType.effectiveType?_eq

/-- No offer has a rank here. The keywords are scanned in their own order, not in that of the
schema. -/
example : (ofJson (.obj [("allOf", .arr [.obj [("type", .str "Null")]]), ("oneOf", .arr [.null,
    .obj [("then", .obj [("properties", .obj [("day", .obj [("type",
      .arr [.str "NULL", .str "Date"])])])])]])])).effectiveType? = some "date" := by
  decide

end Property

end OnchainSchema
