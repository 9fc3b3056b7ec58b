import OnchainSchema.Lint.Check
import OnchainSchema.Proofs.PointerPaths

/-!
The objects of a document in the order in which it is read. The order is given on places, and the
search for objects goes through the places of objects in this order, each once.
-/
namespace OnchainSchema

namespace Pointer

/-- The steps one after the other, each after a slash and none of them escaped. -/
def spell : List Step → String
  | [] => ""
  | s :: steps => "/" ++ s.text ++ spell steps

@[simp] theorem spell_nil : spell [] = "" := rfl

@[simp] theorem spell_cons (s : Step) (steps : List Step) :
    spell (s :: steps) = "/" ++ s.text ++ spell steps := rfl

theorem spell_append (p q : List Step) : spell (p ++ q) = spell p ++ spell q := by
  induction p with
  | nil => simp
  | cons s p ih => simp [ih, String.append_assoc]

theorem spell_concat_key (p : List Step) (key : String) :
    spell (p ++ [.key key]) = spell p ++ "/" ++ key := by
  simp [spell_append, Step.text, String.append_assoc]

end Pointer

namespace Json

open Pointer (Step spell)

/-- The place `p` of a value is read before the place `q`: what holds something before what it
holds, members and elements in their order. -/
inductive Precedes : Json → List Step → List Step → Prop
  | outer {j : Json} {s : Step} {q : List Step} : Precedes j [] (s :: q)
  | sameMember {name : String} {v : Json} {ms : Members} {p q : List Step} (hm : (name, v) ∈ ms)
      (h : Precedes v p q) : Precedes (.obj ms) (.key name :: p) (.key name :: q)
  | laterMember {name name' : String} {ms : Members} {p q : List Step}
      (h : [name, name'].Sublist (Members.keys ms)) :
      Precedes (.obj ms) (.key name :: p) (.key name' :: q)
  | sameElem {i : Nat} {e : Json} {es : List Json} {p q : List Step} (he : es[i]? = some e)
      (h : Precedes e p q) : Precedes (.arr es) (.index i :: p) (.index i :: q)
  | laterElem {i i' : Nat} {es : List Json} {p q : List Step} (h : i < i') :
      Precedes (.arr es) (.index i :: p) (.index i' :: q)

/-- All objects of a value, each with the steps to it, in the order in which they are read. -/
structure ObjectsInOrder (j : Json) (nodes : List (List Step × Members)) : Prop where
  mem_iff : ∀ steps ms, (steps, ms) ∈ nodes ↔ j.At steps (.obj ms)
  ordered : nodes.Pairwise fun m n => j.Precedes m.1 n.1

/-- Of two keys that are used once, only one stands before the other. -/
theorem not_sublist_swap {keys : List String} (h : keys.Nodup) {k k' : String}
    (hk : [k, k'].Sublist keys) : ¬ [k', k].Sublist keys := by
  intro hk'
  induction keys with
  | nil => cases hk
  | cons key keys ih =>
    obtain ⟨hkey, hkeys⟩ := List.nodup_cons.mp h
    cases hk with
    | cons _ hk =>
      cases hk' with
      | cons _ hk' => exact ih hkeys hk hk'
      | cons_cons _ hk' => exact hkey (hk.subset (by simp))
    | cons_cons _ hk =>
      cases hk' with
      | cons _ hk' => exact hkey (hk'.subset (by simp))
      | cons_cons _ hk' => exact hkey (hk'.subset (by simp))

/-- Where no object has a key twice, of two places only one is read before the other. -/
theorem Precedes.asymm {j : Json} {p q : List Step} (h : j.Precedes p q) (hj : j.KeysDistinct) :
    ¬ j.Precedes q p := by
  induction h with
  | outer => intro h; cases h
  | sameMember hm _ ih =>
    obtain ⟨hkeys, hms⟩ := hj
    intro h
    cases h with
    | sameMember hm' h =>
      have hv := (Members.mem_iff_get?_eq_some hkeys).mp hm
      rw [(Members.mem_iff_get?_eq_some hkeys).mp hm', Option.some.injEq] at hv
      exact ih (hms.of_mem hm) (hv ▸ h)
    | laterMember h => exact absurd (hkeys.sublist h) (by simp)
  | laterMember h =>
    intro h'
    cases h' with
    | sameMember => exact absurd (hj.1.sublist h) (by simp)
    | laterMember h' => exact not_sublist_swap hj.1 h h'
  | sameElem he _ ih =>
    intro h
    cases h with
    | sameElem he' h =>
      rw [he, Option.some.injEq] at he'
      exact ih (KeysDistinctElems.of_mem hj (List.mem_of_getElem? he)) (he' ▸ h)
    | laterElem h => exact Nat.lt_irrefl _ h
  | laterElem h =>
    intro h'
    cases h' with
    | sameElem => exact Nat.lt_irrefl _ h
    | laterElem h' => exact Nat.lt_asymm h h'

/-- No two lists are in this order. -/
theorem ObjectsInOrder.unique {j : Json} {nodes nodes' : List (List Step × Members)}
    (h : j.ObjectsInOrder nodes) (h' : j.ObjectsInOrder nodes') (hj : j.KeysDistinct) :
    nodes = nodes' := by
  have hnodup {ns : List (List Step × Members)} (hns : j.ObjectsInOrder ns) : ns.Nodup :=
    hns.ordered.imp fun hmn heq => (heq ▸ hmn).asymm hj (heq ▸ hmn)
  have hperm : nodes.Perm nodes' := by
    rw [List.perm_ext_iff_of_nodup (hnodup h) (hnodup h')]
    rintro ⟨steps, ms⟩
    rw [h.mem_iff, h'.mem_iff]
  exact hperm.eq_of_pairwise (fun m n _ _ hmn hnm => absurd hnm (hmn.asymm hj)) h.ordered h'.ordered

mutual
/-- The objects of a value with the steps to them. -/
def placedObjects : Json → List (List Step × Members)
  | .obj ms => ([], ms) :: placedInMembers ms
  | .arr es => placedInElems 0 es
  | _ => []
def placedInMembers : List (String × Json) → List (List Step × Members)
  | [] => []
  | (k, v) :: ms =>
    (placedObjects v).map (fun n => (.key k :: n.1, n.2)) ++ placedInMembers ms
def placedInElems (i : Nat) : List Json → List (List Step × Members)
  | [] => []
  | e :: es => (placedObjects e).map (fun n => (.index i :: n.1, n.2)) ++ placedInElems (i + 1) es
end

mutual
/-- The search for objects goes through their places. -/
theorem objects_eq_map (path : String) : (j : Json) →
    Lint.objects path j = (placedObjects j).map fun n => (path ++ spell n.1, n.2)
  | .obj ms => by simp [Lint.objects, placedObjects, objectsOfMembers_eq_map path ms]
  | .arr es => objectsOfElems_eq_map path 0 es
  | .null | .bool _ | .num _ | .str _ => rfl
theorem objectsOfMembers_eq_map (path : String) : (ms : List (String × Json)) →
    Lint.objectsOfMembers path ms = (placedInMembers ms).map fun n => (path ++ spell n.1, n.2)
  | [] => rfl
  | (k, v) :: ms => by
    rw [Lint.objectsOfMembers, placedInMembers, objects_eq_map (path ++ "/" ++ k) v,
      objectsOfMembers_eq_map path ms, List.map_append, List.map_map]
    simp only [Function.comp_def, Pointer.spell_cons, Step.text, String.append_assoc]
theorem objectsOfElems_eq_map (path : String) (i : Nat) : (es : List Json) →
    Lint.objectsOfElems path i es = (placedInElems i es).map fun n => (path ++ spell n.1, n.2)
  | [] => rfl
  | e :: es => by
    rw [Lint.objectsOfElems, placedInElems, objects_eq_map (path ++ "/" ++ toString i) e,
      objectsOfElems_eq_map path (i + 1) es, List.map_append, List.map_map]
    simp only [Function.comp_def, Pointer.spell_cons, Step.text, String.append_assoc]
end

mutual
theorem mem_placedObjects_iff {steps : List Step} {ms : Members} : (j : Json) →
    ((steps, ms) ∈ placedObjects j ↔ j.At steps (.obj ms))
  | .obj os => by
    rw [placedObjects, List.mem_cons, mem_placedInMembers_iff os]
    constructor
    · rintro (h | ⟨name, v, rest, hm, rfl, hv⟩)
      · cases h
        exact .here _
      · exact .member hm hv
    · intro h
      cases h with
      | here => exact .inl rfl
      | member hm hv => exact .inr ⟨_, _, _, hm, rfl, hv⟩
  | .arr es => by
    rw [placedObjects, mem_placedInElems_iff 0 es]
    constructor
    · rintro ⟨i, e, rest, he, rfl, hrest⟩
      rw [Nat.zero_add]
      exact .elem he hrest
    · intro h
      cases h with
      | elem he hrest => exact ⟨_, _, _, he, by rw [Nat.zero_add], hrest⟩
  | .null | .bool _ | .num _ | .str _ => by
    constructor
    · intro h; cases h
    · intro h; cases h
theorem mem_placedInMembers_iff {steps : List Step} {ms : Members} : (os : List (String × Json)) →
    ((steps, ms) ∈ placedInMembers os ↔
      ∃ name v rest, (name, v) ∈ os ∧ steps = .key name :: rest ∧ v.At rest (.obj ms))
  | [] => by simp [placedInMembers]
  | (k, v) :: os => by
    rw [placedInMembers, List.mem_append, mem_placedInMembers_iff os, List.mem_map]
    constructor
    · rintro (⟨⟨rest, ms'⟩, hn, h⟩ | ⟨name, w, rest, hm, h⟩)
      · cases h
        exact ⟨k, v, rest, List.mem_cons_self .., rfl, (mem_placedObjects_iff v).mp hn⟩
      · exact ⟨name, w, rest, List.mem_cons_of_mem _ hm, h⟩
    · rintro ⟨name, w, rest, hm, rfl, hw⟩
      rcases List.mem_cons.mp hm with h | hm
      · cases h
        exact .inl ⟨(rest, ms), (mem_placedObjects_iff v).mpr hw, rfl⟩
      · exact .inr ⟨name, w, rest, hm, rfl, hw⟩
theorem mem_placedInElems_iff {steps : List Step} {ms : Members} (i : Nat) : (es : List Json) →
    ((steps, ms) ∈ placedInElems i es ↔
      ∃ k e rest, es[k]? = some e ∧ steps = .index (i + k) :: rest ∧ e.At rest (.obj ms))
  | [] => by simp [placedInElems]
  | e :: es => by
    rw [placedInElems, List.mem_append, mem_placedInElems_iff (i + 1) es, List.mem_map]
    constructor
    · rintro (⟨⟨rest, ms'⟩, hn, h⟩ | ⟨k, w, rest, hk, rfl, hw⟩)
      · cases h
        exact ⟨0, e, rest, rfl, rfl, (mem_placedObjects_iff e).mp hn⟩
      · exact ⟨k + 1, w, rest, hk, by rw [Nat.add_assoc, Nat.add_comm 1 k], hw⟩
    · rintro ⟨k, w, rest, hk, rfl, hw⟩
      cases k with
      | zero =>
        obtain rfl := Option.some.inj hk
        exact .inl ⟨(rest, ms), (mem_placedObjects_iff e).mpr hw, rfl⟩
      | succ k => exact .inr ⟨k, w, rest, hk, by rw [Nat.add_assoc, Nat.add_comm 1 k], hw⟩
end

mutual
theorem pairwise_placedObjects : (j : Json) →
    (placedObjects j).Pairwise fun m n => j.Precedes m.1 n.1
  | .obj ms => by
    rw [placedObjects, List.pairwise_cons]
    refine ⟨?_, pairwise_placedInMembers ms (List.suffix_refl ms)⟩
    rintro ⟨steps, os⟩ hn
    obtain ⟨name, v, rest, -, rfl, -⟩ := (mem_placedInMembers_iff ms).mp hn
    exact .outer
  | .arr es => pairwise_placedInElems 0 es fun k => by rw [Nat.zero_add]
  | .null | .bool _ | .num _ | .str _ => .nil
/-- Members at the end of an object are read one after the other. -/
theorem pairwise_placedInMembers {all : Members} : (ms : List (String × Json)) → ms <:+ all →
    (placedInMembers ms).Pairwise fun m n => (Json.obj all).Precedes m.1 n.1
  | [], _ => .nil
  | (k, v) :: ms, h => by
    rw [placedInMembers, List.pairwise_append, List.pairwise_map]
    refine ⟨?_, pairwise_placedInMembers ms ((List.suffix_cons _ _).trans h), ?_⟩
    · have hmem : (k, v) ∈ all := h.subset (List.mem_cons_self ..)
      exact (pairwise_placedObjects v).imp fun hmn => .sameMember hmem hmn
    · intro m hm n hn
      obtain ⟨⟨p, os⟩, -, rfl⟩ := List.mem_map.mp hm
      obtain ⟨name, w, q, hw, hq, -⟩ := (mem_placedInMembers_iff ms).mp hn
      have hkeys : [k, name].Sublist (Members.keys ((k, v) :: ms)) := by
        rw [Members.keys_cons, List.cons_sublist_cons, List.singleton_sublist]
        exact List.mem_map_of_mem hw
      rw [hq]
      exact .laterMember (hkeys.trans (h.sublist.map Prod.fst))
theorem pairwise_placedInElems {all : List Json} (i : Nat) : (es : List Json) →
    (∀ k, all[i + k]? = es[k]?) →
    (placedInElems i es).Pairwise fun m n => (Json.arr all).Precedes m.1 n.1
  | [], _ => .nil
  | e :: es, h => by
    rw [placedInElems, List.pairwise_append, List.pairwise_map]
    refine ⟨?_, pairwise_placedInElems (i + 1) es ?_, ?_⟩
    · exact (pairwise_placedObjects e).imp fun hmn => .sameElem (h 0) hmn
    · intro k
      rw [Nat.add_assoc, Nat.add_comm 1 k]
      exact h (k + 1)
    · intro m hm n hn
      obtain ⟨⟨p, os⟩, -, rfl⟩ := List.mem_map.mp hm
      obtain ⟨k, w, q, -, hq, -⟩ := (mem_placedInElems_iff (i + 1) es).mp hn
      rw [hq]
      exact .laterElem (by omega)
end

/-- The search lists the objects in their order, which no other list does. -/
theorem objectsInOrder_iff {j : Json} (hj : j.KeysDistinct) {nodes : List (List Step × Members)} :
    j.ObjectsInOrder nodes ↔ nodes = placedObjects j := by
  have hplaced : j.ObjectsInOrder (placedObjects j) :=
    ⟨fun _ _ => mem_placedObjects_iff j, pairwise_placedObjects j⟩
  constructor
  · exact fun h => h.unique hplaced hj
  · rintro rfl
    exact hplaced

end Json

end OnchainSchema
