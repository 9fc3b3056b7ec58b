import OnchainSchema.Fetch
import OnchainSchema.Json.Pointer

/-! Resolving references, and laying a property over the target of its reference. -/
namespace OnchainSchema

/-- The document that references stand in and the directory their files are relative to. -/
structure Site where
  document : Json
  base : Path

namespace Ref

def keyword : String := "$ref"

def navigate (document : Json) (pointer : String) : Except Fault Json :=
  match document.navigate pointer with
  | some node => .ok node
  | none => .error (.targetNotFound pointer)

/-- A reference into its own document has to begin with `#/`. -/
def tryResolve (site : Site) (ref : String) : Fetch (Except Fault Json) :=
  match Target.ofText ref with
  | .outside file fragment => do
    match ← Fetch.load file site.base with
    | some document => return navigate document fragment
    | none => return .error (.unloadable file)
  | .inside pointer =>
    return if Text.startsWith "#/" pointer then navigate site.document pointer
      else .error (.unsupportedFormat ref)

def resolve (site : Site) (ref : String) : Fetch (Option Json) := do
  match ← tryResolve site ref with
  | .ok node => return some node
  | .error fault =>
    Fetch.log (.refNotResolved ref fault)
    return none

/-- The members of `target` with `own` over them; the reference itself does not count as own. -/
def overlay (target own : Members) : Members :=
  (own.filter (·.1 != keyword)).foldl (fun ms m => Members.put m.1 m.2 ms) target

/-- Own members go before those of the target; a reference is only ever the target's. -/
theorem get?_overlay {own : Members} (h : (Members.keys own).Nodup) (target : Members)
    (k : String) :
    Members.get? k (overlay target own) =
      (if k = keyword then none else Members.get? k own).or (Members.get? k target) := by
  have hfilter : (Members.keys (own.filter (·.1 != keyword))).Nodup :=
    h.sublist (List.filter_sublist.map Prod.fst)
  rw [overlay, Members.get?_foldl_put, Members.get?_reverse hfilter,
    Members.get?_filter (· != keyword)]
  by_cases hk : k = keyword <;> simp [hk]

/-- What is not the target's is one of the own members. -/
theorem get?_overlay_eq_some {target own : Members} {k : String} {v : Json} (hk : k ≠ keyword)
    (h : Members.get? k (overlay target own) = some v) :
    (k, v) ∈ own ∨ Members.get? k own = none ∧ Members.get? k target = some v := by
  rw [overlay, Members.get?_foldl_put, Option.or_eq_some_iff] at h
  rcases h with hown | ⟨hown, htarget⟩
  · have hmem := Members.mem_of_get?_eq_some hown
    exact .inl (List.mem_filter.mp (List.mem_reverse.mp hmem)).1
  · refine .inr ⟨?_, htarget⟩
    rw [Members.get?_eq_none_iff] at hown ⊢
    simpa [Members.keys, hk] using hown

/-- The property with its reference resolved; as it is, if there is none or it has no target. -/
def expand (site : Site) (property : Json) : Fetch Json :=
  match property.textAt? keyword with
  | none => return property
  | some ref => do
    match ← resolve site ref with
    | some target => return .obj (overlay (target.members?.getD []) (property.members?.getD []))
    | none =>
      Fetch.log (.refLeft ref)
      return property

end Ref

end OnchainSchema
