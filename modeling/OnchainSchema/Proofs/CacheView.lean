import Mathlib.Tactic.Choose
import OnchainSchema.Proofs.Loading

/-!
What a cache and a source show together: under each key the cached document, or else what a load
would give now. Compilation is transparent: its results depend on this view alone, and all it does
to the cache is to hold documents that the view shows already.
-/
namespace OnchainSchema

namespace Cache

/-- The document that a reference from `base` to the file `key` leads to. -/
def view (c : Cache) (s : Source) (base : Path) (key : String) : Option Json :=
  (c.get? key).or (s.load (base.join key)).toOption

theorem view_of_get? {c : Cache} {key : String} {document : Json} (h : c.get? key = some document)
    (s : Source) (base : Path) : c.view s base key = some document := by
  rw [view, h]
  rfl

theorem view_empty (s : Source) (base : Path) (key : String) :
    empty.view s base key = (s.load (base.join key)).toOption := by
  rw [view, get?_empty, Option.none_or]

/-- Holding documents that the view shows does not change it. -/
theorem view_eq_of_get? {c c' : Cache} {s : Source} {base : Path} {keys : List String}
    (h : ∀ key, c'.get? key = if key ∈ keys then c.view s base key else c.get? key) :
    c'.view s base = c.view s base := by
  funext key
  rw [view, h]
  by_cases hk : key ∈ keys
  · rw [if_pos hk]
    cases hv : c.view s base key with
    | some document => rfl
    | none =>
      rw [view, Option.or_eq_none_iff] at hv
      exact hv.2
  · rw [if_neg hk]
    rfl

end Cache

namespace Fetch

variable {α β : Type}

/-- From every cache that shows `v`, `x` gives `a` and then holds what `v` shows under `keys`. -/
def Settles (base : Path) (s : Source) (v : String → Option Json) (x : Fetch α) (a : α)
    (keys : List String) : Prop :=
  ∀ c : Cache, c.view s base = v → (x.run s c).value = a ∧
    ∀ key, (x.run s c).cache.get? key = if key ∈ keys then v key else c.get? key

/-- It makes no difference to `x` which of the documents it can see are cached already. -/
def Transparent (base : Path) (x : Fetch α) : Prop :=
  ∀ s v, ∃ a keys, Settles base s v x a keys

theorem Settles.view_after {base : Path} {s : Source} {v : String → Option Json} {x : Fetch α}
    {a : α} {keys : List String} (h : Settles base s v x a keys) {c : Cache}
    (hc : c.view s base = v) : (x.run s c).cache.view s base = v := by
  subst hc
  exact Cache.view_eq_of_get? (h c rfl).2

theorem Settles.bind {base : Path} {s : Source} {v : String → Option Json} {x : Fetch α}
    {f : α → Fetch β} {a : α} {b : β} {keys keys' : List String}
    (hx : Settles base s v x a keys) (hf : Settles base s v (f a) b keys') :
    Settles base s v (x >>= f) b (keys ++ keys') := by
  intro c hc
  obtain ⟨hvalue, hcache⟩ := hx c hc
  obtain ⟨hvalue', hcache'⟩ := hf _ (hx.view_after hc)
  rw [run_bind, hvalue]
  refine ⟨hvalue', fun key => ?_⟩
  rw [hcache', hcache]
  by_cases hk : key ∈ keys <;> by_cases hk' : key ∈ keys' <;> simp [hk, hk']

theorem settles_pure (base : Path) (s : Source) (v : String → Option Json) (a : α) :
    Settles base s v (Pure.pure a) a [] :=
  fun _ _ => ⟨rfl, by simp⟩

theorem transparent_pure (base : Path) (a : α) : Transparent base (Pure.pure a : Fetch α) :=
  fun s v => ⟨a, [], settles_pure base s v a⟩

theorem transparent_log (base : Path) (e : Event) : Transparent base (log e) :=
  fun _ _ => ⟨(), [], fun _ _ => ⟨rfl, by simp⟩⟩

theorem transparent_loadRoot (base p : Path) : Transparent base (loadRoot p) :=
  fun s _ => ⟨s.load p, [], fun _ _ => ⟨rfl, by simp⟩⟩

theorem Transparent.bind {base : Path} {x : Fetch α} {f : α → Fetch β}
    (hx : Transparent base x) (hf : ∀ a, Transparent base (f a)) : Transparent base (x >>= f) := by
  intro s v
  obtain ⟨a, keys, hx⟩ := hx s v
  obtain ⟨b, keys', hf⟩ := hf a s v
  exact ⟨b, keys ++ keys', hx.bind hf⟩

namespace Transparent

variable {base : Path} {x : Fetch α}

theorem value_eq (h : Transparent base x) {s : Source} {c c' : Cache}
    (hc : c.view s base = c'.view s base) : (x.run s c).value = (x.run s c').value := by
  obtain ⟨a, keys, h⟩ := h s (c'.view s base)
  rw [(h c hc).1, (h c' rfl).1]

theorem view_after (h : Transparent base x) (s : Source) (c : Cache) :
    (x.run s c).cache.view s base = c.view s base := by
  obtain ⟨a, keys, h⟩ := h s (c.view s base)
  exact h.view_after rfl

end Transparent

theorem value_load (file : String) (base : Path) (s : Source) (c : Cache) :
    ((load file base).run s c).value = c.view s base file := by
  unfold Cache.view
  cases hget : c.get? file with
  | some document => simp [run_load_of_get? hget]
  | none =>
    rw [run_load_of_none hget]
    cases s.load (base.join file) <;> rfl

/-- A load leaves under its key what it has given, also if that is nothing. -/
theorem get?_load (file : String) (base : Path) (s : Source) (c : Cache) (key : String) :
    ((load file base).run s c).cache.get? key =
      if key = file then ((load file base).run s c).value else c.get? key := by
  cases hget : c.get? file with
  | some document =>
    rw [run_load_of_get? hget]
    split <;> simp_all
  | none =>
    rw [run_load_of_none hget]
    cases s.load (base.join file) with
    | ok document => simp [Cache.get?_add hget, eq_comm]
    | error error =>
      simp only
      split <;> simp_all

theorem transparent_load (base : Path) (file : String) : Transparent base (load file base) := by
  intro s v
  refine ⟨v file, [file], fun c hc => ?_⟩
  subst hc
  refine ⟨value_load file base s c, fun key => ?_⟩
  rw [get?_load, value_load]
  by_cases hk : key = file <;> simp [hk]

/-- Loads from one directory are all that a computation needs for its view to be of that
directory. -/
theorem LoadsFrom.transparent {base : Path} {x : Fetch α} (h : LoadsFrom (· = base) x) :
    Transparent base x := by
  induction h with
  | pure a => exact transparent_pure base a
  | log e => exact transparent_log base e
  | loadRoot p => exact transparent_loadRoot base p
  | load file h => exact h ▸ transparent_load _ file
  | bind _ _ ihx ihf => exact ihx.bind ihf

end Fetch

open Fetch

namespace Build

theorem transparent_decide (site : Site) (name : String) (property : Json) :
    Transparent site.base (decide site name property) :=
  (loadsFrom_decide name property).transparent

/-- Each property settles on an outcome and keys of its own, whatever stands before it. -/
theorem settles_decisionsOf {site : Site} {s : Source} {v : String → Option Json}
    {outcome : String × Json → FieldOutcome} {keys : String × Json → List String}
    (h : ∀ m, Settles site.base s v (decide site m.1 m.2) (outcome m) (keys m))
    (properties : Members) :
    Settles site.base s v (decisionsOf site properties)
      (properties.map fun m => ⟨m.1, outcome m⟩) (properties.flatMap keys) := by
  induction properties with
  | nil => exact settles_pure _ _ _ _
  | cons m ms ih =>
    rw [List.flatMap_cons, ← List.append_nil (ms.flatMap keys)]
    exact (h m).bind (ih.bind (settles_pure _ _ _ _))

end Build

end OnchainSchema
