import OnchainSchema.Proofs.Compilation
import OnchainSchema.Proofs.Outcomes

/-!
Properties with the target of their reference. The own members lie over those of the target, in the
places that these have; all but the reference itself, which only the target can give.
-/
namespace OnchainSchema

open Fetch

namespace Members

variable {α : Type}

/-- Writes to distinct keys add those that are new behind the others, in the order of the writes. -/
theorem keys_foldl_put {ws : List (String × α)} (h : (keys ws).Nodup) (ms : List (String × α)) :
    keys (ws.foldl (fun ms w => put w.1 w.2 ms) ms) =
      keys ms ++ (keys ws).filter (· ∉ keys ms) := by
  induction ws generalizing ms with
  | nil => simp
  | cons w ws ih =>
    rw [keys_cons, List.nodup_cons] at h
    obtain ⟨hw, hws⟩ := h
    rw [List.foldl_cons, ih hws, keys_put, keys_cons]
    by_cases hmem : w.1 ∈ keys ms
    · rw [if_pos hmem, List.filter_cons_of_neg (by simpa using hmem)]
    · have hrest : (keys ws).filter (· ∉ keys ms ++ [w.1]) = (keys ws).filter (· ∉ keys ms) := by
        apply List.filter_congr
        intro k hk
        have hne : k ≠ w.1 := fun he => hw (he ▸ hk)
        simp [hne]
      rw [if_neg hmem, List.filter_cons_of_pos (by simpa using hmem), hrest, List.append_assoc,
        List.singleton_append]

end Members

/-- The keys of an object in their order; other values have none. -/
def Json.keys (j : Json) : List String := Members.keys (j.members?.getD [])

theorem Json.get?_eq (j : Json) (k : String) : j.get? k = Members.get? k (j.members?.getD []) := by
  cases j <;> rfl

namespace Ref

theorem keys_overlay {own : Members} (h : (Members.keys own).Nodup) (target : Members) :
    Members.keys (overlay target own) = Members.keys target ++
      (Members.keys own).filter fun k => k ≠ keyword ∧ k ∉ Members.keys target := by
  have hkeys : Members.keys (own.filter (·.1 != keyword)) =
      (Members.keys own).filter (· != keyword) := by
    rw [Members.keys, Members.keys, List.filter_map]
    rfl
  rw [overlay, Members.keys_foldl_put (hkeys ▸ h.filter _), hkeys, List.filter_filter]
  congr 2
  funext k
  rw [Bool.eq_iff_iff]
  simp [and_comm]

variable (site : Site) (s : Source) (c : Cache) {property : Json}

/-- A value without a reference is left as it is, and nothing is looked up for it. -/
theorem run_expand_of_none (h : property.textAt? keyword = none) :
    (expand site property).run s c = ⟨property, c, []⟩ := by
  rw [expand, h]
  rfl

theorem value_expand_of_some {ref : String} {target : Json}
    (href : property.textAt? keyword = some ref)
    (htarget : ((resolve site ref).run s c).value = some target) :
    ((expand site property).run s c).value =
      .obj (overlay (target.members?.getD []) (property.members?.getD [])) := by
  rw [expand, href]
  dsimp only
  rw [run_bind, htarget]
  rfl

theorem value_expand_of_unresolved
    (h : ∀ ref, property.textAt? keyword = some ref → ((resolve site ref).run s c).value = none) :
    ((expand site property).run s c).value = property := by
  cases href : property.textAt? keyword with
  | none => rw [run_expand_of_none site s c href]
  | some ref =>
    rw [expand, href]
    dsimp only
    rw [run_bind, h ref href]
    rfl

/-- A property whose reference has a target becomes an object with the members of the target, the
own members over them and then the other own ones; without a target it stays as it is. Where the
target has no reference of its own, there is nothing left to resolve. No key of an object is there
twice. -/
theorem merged_right_biased (h : property.keys.Nodup) :
    let merged := ((expand site property).run s c).value
    (∀ ref target, property.textAt? keyword = some ref →
      ((resolve site ref).run s c).value = some target →
      merged.isObject ∧
      (∀ k, k ≠ keyword → merged.get? k = (property.get? k).or (target.get? k)) ∧
      merged.get? keyword = target.get? keyword ∧
      merged.keys =
        target.keys ++ property.keys.filter (fun k => k ≠ keyword ∧ k ∉ target.keys) ∧
      (target.get? keyword = none →
        ∀ site' s' c', (expand site' merged).run s' c' = ⟨merged, c', []⟩)) ∧
    ((∀ ref, property.textAt? keyword = some ref → ((resolve site ref).run s c).value = none) →
      merged = property) := by
  intro merged
  refine ⟨fun ref target href htarget => ?_, value_expand_of_unresolved site s c⟩
  have hmerged : merged = .obj (overlay (target.members?.getD []) (property.members?.getD [])) :=
    value_expand_of_some site s c href htarget
  have hget : ∀ k, merged.get? k =
      (if k = keyword then none else property.get? k).or (target.get? k) := by
    intro k
    rw [hmerged, property.get?_eq, target.get?_eq]
    exact get?_overlay h _ k
  have hkeyword : merged.get? keyword = target.get? keyword := by
    rw [hget, if_pos rfl, Option.none_or]
  refine ⟨by rw [hmerged]; rfl, fun k hk => by rw [hget, if_neg hk], hkeyword, ?_, ?_⟩
  · rw [hmerged]
    exact keys_overlay h _
  · intro hnone site' s' c'
    apply run_expand_of_none
    rw [Json.textAt?, hkeyword, hnone]
    rfl

section Samples

def hashType : Json := .obj [("type", .str "string"), ("description", .str "shared"),
  ("pattern", .str "^.*$")]

def hashSite : Site := ⟨.obj [("definitions", .obj [("Hash", hashType)])], ⟨"."⟩⟩

def hashProperty : Json := .obj [("title", .str "Hash"), ("$ref", .str "#/definitions/Hash"),
  ("description", .str "local")]

/-- The description is the property's own and stands where the target has one. -/
theorem hash_merged :
    let merged := ((expand hashSite hashProperty).run noFiles Cache.empty).value
    hashProperty.keys.Nodup ∧
    ((resolve hashSite "#/definitions/Hash").run noFiles Cache.empty).value = some hashType ∧
    merged.keys = ["type", "description", "pattern", "title"] ∧
    merged.get? "description" = some (.str "local") ∧
    merged.get? "pattern" = some (.str "^.*$") ∧
    (expand hashSite merged).run noFiles Cache.empty = ⟨merged, Cache.empty, []⟩ := by
  intro merged
  have hdistinct : hashProperty.keys.Nodup := by decide
  have htarget : ((resolve hashSite "#/definitions/Hash").run noFiles Cache.empty).value =
      some hashType := by rfl
  obtain ⟨hmerged, -⟩ := merged_right_biased hashSite noFiles Cache.empty hdistinct
  obtain ⟨-, hget, -, hkeys, hagain⟩ := hmerged _ _ rfl htarget
  refine ⟨hdistinct, htarget, ?_, ?_, ?_, hagain rfl hashSite noFiles Cache.empty⟩
  · exact hkeys.trans (by decide)
  · exact (hget _ (by decide)).trans (by rfl)
  · exact (hget _ (by decide)).trans (by rfl)

end Samples

end Ref

end OnchainSchema
