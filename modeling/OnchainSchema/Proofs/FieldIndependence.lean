import OnchainSchema.Proofs.CacheView

/-!
Fields are compiled independently of each other and of their order. What a property gets is settled
by the cache that the build begins with, however that was filled.
-/
namespace OnchainSchema

open Fetch

namespace Build

/-- The decision about a property when nothing was built before it. -/
def alone (site : Site) (s : Source) (c : Cache) (m : String × Json) : Decision :=
  ⟨m.1, ((decide site m.1 m.2).run s c).value⟩

theorem decisions_singleton (site : Site) (s : Source) (c : Cache) (m : String × Json) :
    ((ofProperties site [m]).run s c).value.decisions = [alone site s c m] := rfl

/-- One choice of keys for each property says what a build of any of them does. -/
theorem exists_keys (site : Site) (s : Source) (c : Cache) :
    ∃ keys : String × Json → List String, ∀ ps : Members,
      ((ofProperties site ps).run s c).value.decisions = ps.map (alone site s c) ∧
      ∀ key, ((ofProperties site ps).run s c).cache.get? key =
        if key ∈ ps.flatMap keys then c.view s site.base key else c.get? key := by
  choose outcome keys h using fun m : String × Json =>
    transparent_decide site m.1 m.2 s (c.view s site.base)
  have halone : ∀ m, alone site s c m = ⟨m.1, outcome m⟩ := by
    intro m
    rw [alone, (h m c rfl).1]
  refine ⟨keys, fun ps => ?_⟩
  obtain ⟨hvalue, hcache⟩ := settles_decisionsOf h ps c rfl
  refine ⟨?_, hcache⟩
  rw [List.map_congr_left fun m _ => halone m]
  exact hvalue

theorem decisions_eq_map_alone (site : Site) (s : Source) (c : Cache) (ps : Members) :
    ((ofProperties site ps).run s c).value.decisions = ps.map (alone site s c) := by
  obtain ⟨keys, h⟩ := exists_keys site s c
  exact (h ps).1

theorem fields_eq_filterMap_alone (site : Site) (s : Source) (c : Cache) (ps : Members) :
    ((ofProperties site ps).run s c).value.fields =
      ps.filterMap fun m => (alone site s c m).field? := by
  rw [fields, decisions_eq_map_alone, List.filterMap_map]
  rfl

/-- The decision of a build that stands at the place of a property. -/
theorem mem_zip_decisions_iff {site : Site} {s : Source} {c : Cache} {ps : Members}
    {m : String × Json} {d : Decision} :
    (m, d) ∈ ps.zip ((ofProperties site ps).run s c).value.decisions ↔
      m ∈ ps ∧ d = alone site s c m := by
  rw [decisions_eq_map_alone, ← List.map_prod_left_eq_zip, List.mem_map]
  constructor
  · rintro ⟨m', hm, he⟩
    obtain ⟨rfl, rfl⟩ := Prod.mk.inj he
    exact ⟨hm, rfl⟩
  · rintro ⟨hm, rfl⟩
    exact ⟨m, hm, rfl⟩

/-- Which documents a build leaves in the cache does not depend on the order of the properties. -/
theorem get?_cache_perm (site : Site) (s : Source) (c : Cache) {ps qs : Members}
    (h : ps.Perm qs) (key : String) :
    ((ofProperties site ps).run s c).cache.get? key =
      ((ofProperties site qs).run s c).cache.get? key := by
  obtain ⟨keys, hkeys⟩ := exists_keys site s c
  have hmem : key ∈ ps.flatMap keys ↔ key ∈ qs.flatMap keys := (h.flatMap_right keys).mem_iff
  rw [(hkeys ps).2, (hkeys qs).2]
  simp only [hmem]

theorem run_decisionsOf_append (site : Site) (s : Source) (ps qs : Members) (c : Cache) :
    ((decisionsOf site (ps ++ qs)).run s c).value =
        ((decisionsOf site ps).run s c).value ++
          ((decisionsOf site qs).run s ((decisionsOf site ps).run s c).cache).value ∧
      ((decisionsOf site (ps ++ qs)).run s c).cache =
        ((decisionsOf site qs).run s ((decisionsOf site ps).run s c).cache).cache := by
  induction ps generalizing c with
  | nil => exact ⟨rfl, rfl⟩
  | cons m ms ih =>
    obtain ⟨hvalue, hcache⟩ := ih ((decide site m.1 m.2).run s c).cache
    exact ⟨congrArg (_ :: ·) hvalue, hcache⟩

/-- Each property gets what it gets alone; its decision and field move with it, and a build may be
cut in two at any place. -/
theorem properties_independent (site : Site) (s : Source) (c : Cache) (ps : Members) :
    let built (c : Cache) (ps : Members) := (ofProperties site ps).run s c
    (∀ m, (built c [m]).value.decisions = [alone site s c m]) ∧
    (built c ps).value.decisions = ps.map (alone site s c) ∧
    (built c ps).value.fields = ps.filterMap (fun m => (alone site s c m).field?) ∧
    (∀ qs, ps.Perm qs →
      (ps.zip (built c ps).value.decisions).Perm (qs.zip (built c qs).value.decisions) ∧
      (built c ps).value.fields.Perm (built c qs).value.fields ∧
      (built c ps).cache.entries.Perm (built c qs).cache.entries) ∧
    ∀ qs, let rest := built (built c ps).cache qs
      (built c (ps ++ qs)).value.decisions = (built c ps).value.decisions ++ rest.value.decisions ∧
      (built c (ps ++ qs)).value.fields = (built c ps).value.fields ++ rest.value.fields ∧
      (built c (ps ++ qs)).cache = rest.cache := by
  intro built
  refine ⟨decisions_singleton site s c, decisions_eq_map_alone site s c ps,
    fields_eq_filterMap_alone site s c ps, fun qs h => ⟨?_, ?_, ?_⟩, fun qs => ?_⟩
  · have hzip : ∀ rs : Members, rs.zip (built c rs).value.decisions =
        rs.map fun m => (m, alone site s c m) := by
      intro rs
      rw [decisions_eq_map_alone, List.map_prod_left_eq_zip]
    rw [hzip, hzip]
    exact h.map _
  · rw [fields_eq_filterMap_alone, fields_eq_filterMap_alone]
    exact h.filterMap _
  · exact Cache.entries_perm (get?_cache_perm site s c h)
  · obtain ⟨hvalue, hcache⟩ := run_decisionsOf_append site s ps qs c
    refine ⟨hvalue, ?_, hcache⟩
    exact (congrArg (List.filterMap Decision.field?) hvalue).trans List.filterMap_append

def dayTypes : Source :=
  Source.ofList [(⟨"schemas/types.json"⟩, some "\x7b\"Day\":\x7b\"type\":\"integer\"\x7d\x7d")]

/-- Another directory's `common.json`, under the name that `dayProperties` have for their own. -/
def foreignCache : Cache :=
  Cache.empty.add "common.json" (.obj [("Score", .obj [("type", .str "boolean")])])

def dayProperties : Members := [
  ("day", .obj [("$ref", .str "types.json#/Day")]),
  ("score", .obj [("$ref", .str "common.json#/Score")]),
  ("days", .obj [("type", .str "array"), ("items", .obj [("$ref", .str "types.json#/Day")])])]

/-- In either order the first property that needs it loads the file, and the others find it. -/
theorem days_in_reverse :
    let built (ps : Members) := (ofProperties ⟨.obj [], ⟨"schemas"⟩⟩ ps).run dayTypes foreignCache
    dayProperties.Perm dayProperties.reverse ∧
    (built dayProperties).value.schema = "uint256 day, bool score, uint256[] days" ∧
    (built dayProperties).cache.size = 2 ∧
    (built dayProperties).value.fields.Perm (built dayProperties.reverse).value.fields ∧
    (built dayProperties).cache.entries.Perm (built dayProperties.reverse).cache.entries := by
  have hperm : dayProperties.Perm dayProperties.reverse := (List.reverse_perm _).symm
  obtain ⟨-, -, -, horder, -⟩ :=
    properties_independent ⟨.obj [], ⟨"schemas"⟩⟩ dayTypes foreignCache dayProperties
  obtain ⟨-, hfields, hentries⟩ := horder _ hperm
  exact ⟨hperm, by decide +kernel, by decide +kernel, hfields, hentries⟩

end Build

end OnchainSchema
