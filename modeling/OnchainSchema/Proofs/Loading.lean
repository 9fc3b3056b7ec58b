import OnchainSchema.Compile

/-!
The shape of a compilation. Everything from a reference to a compiled file reaches documents in two
ways only: root documents past the cache, and loads from the directory of its site. A load is served
from the cache, or else it asks the source.
-/
namespace OnchainSchema

namespace Fetch

variable {α : Type}

/-- Computations whose loads through the cache are all from directories with `dirs`. -/
inductive LoadsFrom (dirs : Path → Prop) : {α : Type} → Fetch α → Prop
  | pure {α : Type} (a : α) : LoadsFrom dirs (Pure.pure a : Fetch α)
  | log (e : Event) : LoadsFrom dirs (log e)
  | loadRoot (p : Path) : LoadsFrom dirs (loadRoot p)
  | load {base : Path} (file : String) (h : dirs base) : LoadsFrom dirs (load file base)
  | bind {α β : Type} {x : Fetch α} {f : α → Fetch β} (hx : LoadsFrom dirs x)
      (hf : ∀ a, LoadsFrom dirs (f a)) : LoadsFrom dirs (x >>= f)

/-- What a source is asked for a document that is not cached. -/
def inquiry (s : Source) (p : Path) : Journal :=
  if s.has p then [.checked p, .opened p] else [.checked p]

theorem run_load_of_get? {c : Cache} {file : String} {document : Json}
    (h : c.get? file = some document) (base : Path) (s : Source) :
    (load file base).run s c =
      ⟨some document, c, [.logged (.servedFromCache file), .obtained file]⟩ := by
  simp [load, h]

theorem run_load_of_none {c : Cache} {file : String} (h : c.get? file = none) (base : Path)
    (s : Source) :
    (load file base).run s c =
      match s.load (base.join file) with
      | .ok document =>
        ⟨some document, c.add file document, inquiry s (base.join file) ++ [.obtained file]⟩
      | .error error =>
        ⟨none, c, inquiry s (base.join file) ++ [.logged (.externalNotLoaded file error)]⟩ := by
  cases hload : s.load (base.join file) <;> simp [load, h, hload, inquiry]

/-- What a load says in the log is about its file. -/
theorem mem_events_load {file : String} {base : Path} {s : Source} {c : Cache} {e : Event}
    (h : e ∈ ((load file base).run s c).journal.events) :
    e = .servedFromCache file ∨ ∃ error, e = .externalNotLoaded file error := by
  cases hget : c.get? file with
  | some document =>
    rw [run_load_of_get? hget] at h
    exact .inl (List.mem_singleton.mp h)
  | none =>
    rw [run_load_of_none hget, inquiry] at h
    cases hload : s.load (base.join file) with
    | ok document => cases hhas : s.has (base.join file) <;> simp [hload, hhas, Journal.events] at h
    | error error =>
      cases hhas : s.has (base.join file) <;> simp [hload, hhas, Journal.events] at h <;>
        exact .inr ⟨error, h⟩

theorem LoadsFrom.mono {dirs dirs' : Path → Prop} (hd : ∀ p, dirs p → dirs' p) {x : Fetch α}
    (h : LoadsFrom dirs x) : LoadsFrom dirs' x := by
  induction h with
  | pure a => exact .pure a
  | log e => exact .log e
  | loadRoot p => exact .loadRoot p
  | load file h => exact .load file (hd _ h)
  | bind _ _ ihx ihf => exact .bind ihx ihf

end Fetch

open Fetch

variable {site : Site}

namespace Ref

theorem loadsFrom_tryResolve (ref : String) :
    LoadsFrom (· = site.base) (tryResolve site ref) := by
  unfold tryResolve
  split
  · refine .bind (.load _ rfl) fun found => ?_
    cases found <;> exact .pure _
  · exact .pure _

theorem loadsFrom_resolve (ref : String) : LoadsFrom (· = site.base) (resolve site ref) := by
  refine .bind (loadsFrom_tryResolve ref) fun result => ?_
  cases result with
  | ok node => exact .pure _
  | error fault => exact .bind (.log _) fun _ => .pure _

theorem loadsFrom_expand (property : Json) :
    LoadsFrom (· = site.base) (expand site property) := by
  unfold expand
  split
  · exact .pure _
  · refine .bind (loadsFrom_resolve _) fun target => ?_
    cases target with
    | some node => exact .pure _
    | none => exact .bind (.log _) fun _ => .pure _

end Ref

namespace Build

theorem loadsFrom_itemsOf (p : Property) : LoadsFrom (· = site.base) (itemsOf site p) := by
  unfold itemsOf
  split
  · have hitems (items : Json) : LoadsFrom (· = site.base) (itemFacets site items) :=
      .bind (Ref.loadsFrom_expand items) fun _ => .pure _
    exact .bind (hitems _) fun _ => .pure _
  · exact .pure _

theorem loadsFrom_typeOf (name : String) (p : Property) :
    LoadsFrom (· = site.base) (typeOf site name p) := by
  refine .bind (loadsFrom_itemsOf p) fun items => ?_
  split
  · exact .pure _
  · exact .bind (.log _) fun _ => .pure _

theorem loadsFrom_decide (name : String) (property : Json) :
    LoadsFrom (· = site.base) (decide site name property) := by
  refine .bind (Ref.loadsFrom_expand property) fun resolved => ?_
  have hkept (wrap : AbiType → FieldOutcome) : LoadsFrom (· = site.base)
      (do return ((← typeOf site name (Property.ofJson resolved)).map wrap).getD .dropped) :=
    .bind (loadsFrom_typeOf name _) fun _ => .pure _
  dsimp only
  split
  · exact .bind (.log _) fun _ => hkept .reserved
  · split
    · exact .bind (.log _) fun _ => .pure _
    · exact hkept .included
  · exact hkept .included

theorem loadsFrom_decisionsOf (properties : Members) :
    LoadsFrom (· = site.base) (decisionsOf site properties) := by
  induction properties with
  | nil => exact .pure _
  | cons m ms ih => exact .bind (loadsFrom_decide _ _) fun _ => .bind ih fun _ => .pure _

theorem loadsFrom_ofProperties (properties : Members) :
    LoadsFrom (· = site.base) (ofProperties site properties) :=
  .bind (loadsFrom_decisionsOf properties) fun _ => .pure _

end Build

namespace Compile

variable {dirs : Path → Prop}

theorem loadsFrom_revocability (options : Options) (b : Build) :
    LoadsFrom dirs (revocability options b) := by
  unfold revocability
  split
  · exact .pure _
  · cases detectsRevocation b with
    | true => exact .bind (.log _) fun _ => .pure _
    | false => exact .pure _

theorem loadsFrom_resolverOf (options : Options) : LoadsFrom dirs (resolverOf options) := by
  unfold resolverOf
  split
  · split
    · exact .pure _
    · exact .bind (.log _) fun _ => .pure _
  · exact .pure _

theorem loadsFrom_finish (options : Options) (name : String) (b : Build) :
    LoadsFrom dirs (finish options name b) :=
  .bind (loadsFrom_revocability options b) fun _ =>
    .bind (loadsFrom_resolverOf options) fun _ =>
      .bind (.log _) fun _ => .bind (.log _) fun _ => .pure _

end Compile

theorem loadsFrom_compile (options : Options) :
    LoadsFrom (· = site.base) (compile site options) := by
  unfold compile
  split
  · exact .pure _
  · split
    · exact .pure _
    · exact .bind (Build.loadsFrom_ofProperties _) fun _ =>
        .bind (Compile.loadsFrom_finish options _ _) fun _ => .pure _

theorem loadsFrom_compileFile (file : Path) (options : Options) :
    LoadsFrom (· = file.directory) (compileFile file options) := by
  refine .bind (.loadRoot file) fun loaded => ?_
  cases loaded with
  | error error => exact .pure _
  | ok document => exact @loadsFrom_compile ⟨document, file.directory⟩ options

end OnchainSchema
