import OnchainSchema.Session
import OnchainSchema.Proofs.CacheView

/-!
Sharing a session within one directory. As long as all references of the requests are relative to
one directory and the source stays as it is, no reply tells what the session was asked before.
-/
namespace OnchainSchema

open Fetch

namespace Request

/-- The directory that the references of a request are relative to; a root document alone has
none. -/
def directory? : Request → Option Path
  | .load _ base => some base
  | .loadRoot _ => none
  | .resolve site _ | .expand site _ | .build site _ | .compile site _ => some site.base
  | .compileFile file _ => some file.directory

theorem loadsFrom_perform {r : Request} {dirs : Path → Prop} (h : ∀ b ∈ r.directory?, dirs b) :
    LoadsFrom dirs r.perform := by
  have hone (base : Path) (hb : dirs base) (p : Path) (hp : p = base) : dirs p := hp ▸ hb
  cases r with
  | load file base => exact .bind (.load file (h base rfl)) fun _ => .pure _
  | loadRoot file => exact .bind (.loadRoot file) fun _ => .pure _
  | resolve site ref =>
    exact .bind ((Ref.loadsFrom_resolve ref).mono (hone _ (h _ rfl))) fun _ => .pure _
  | expand site property =>
    exact .bind ((Ref.loadsFrom_expand property).mono (hone _ (h _ rfl))) fun _ => .pure _
  | build site properties =>
    exact .bind ((Build.loadsFrom_ofProperties properties).mono (hone _ (h _ rfl))) fun _ => .pure _
  | compile site options =>
    exact .bind ((loadsFrom_compile options).mono (hone _ (h _ rfl))) fun _ => .pure _
  | compileFile file options =>
    exact .bind ((loadsFrom_compileFile file options).mono (hone _ (h _ rfl))) fun _ => .pure _

theorem transparent_perform {r : Request} {base : Path} (h : ∀ b ∈ r.directory?, b = base) :
    Transparent base r.perform :=
  (loadsFrom_perform h).transparent

end Request

namespace Cache

/-- Every cached document is what a load from `base` would give now. -/
def Coherent (s : Source) (base : Path) (c : Cache) : Prop :=
  ∀ key document, c.get? key = some document → s.load (base.join key) = .ok document

theorem coherent_empty (s : Source) (base : Path) : empty.Coherent s base := by
  intro key document h
  simp at h

/-- A coherent cache shows what the source shows by itself. -/
theorem coherent_iff_view {s : Source} {base : Path} {c : Cache} :
    c.Coherent s base ↔ c.view s base = empty.view s base := by
  constructor
  · intro h
    funext key
    cases hget : c.get? key with
    | none => simp [view, hget]
    | some document => simp [view, hget, h key document hget, Except.toOption]
  · intro h key document hget
    have hkey : empty.view s base key = some document := by
      rw [← h]
      exact view_of_get? hget s base
    cases hload : s.load (base.join key) with
    | ok d => simpa [view, hload, Except.toOption] using hkey
    | error e => simp [view, hload, Except.toOption] at hkey

end Cache

namespace Request

variable {r : Request} {s : Source} {base : Path} {c : Cache}

theorem coherent_perform (h : ∀ b ∈ r.directory?, b = base) (hc : c.Coherent s base) :
    (r.perform.run s c).cache.Coherent s base := by
  rw [Cache.coherent_iff_view] at hc ⊢
  exact ((transparent_perform h).view_after s c).trans hc

theorem value_perform (h : ∀ b ∈ r.directory?, b = base) (hc : c.Coherent s base) :
    (r.perform.run s c).value = (r.perform.run s Cache.empty).value :=
  (transparent_perform h).value_eq (Cache.coherent_iff_view.mp hc)

end Request

namespace Session

/-- Every request of a session that stays within one directory gets the reply that it would get
alone on a fresh session. -/
theorem sharing_invisible (s : Source) (base : Path) (requests : List Request)
    (h : ∀ r ∈ requests, ∀ b ∈ r.directory?, b = base) :
    (run Cache.empty (requests.map (s, ·))).map Outcome.value =
      requests.map fun r => (r.perform.run s Cache.empty).value := by
  suffices hrun : ∀ c : Cache, c.Coherent s base →
      (run c (requests.map (s, ·))).map Outcome.value =
        requests.map fun r => (r.perform.run s Cache.empty).value from
    hrun Cache.empty (Cache.coherent_empty s base)
  induction requests with
  | nil => exact fun _ _ => rfl
  | cons r rs ih =>
    intro c hc
    have hr := h r (by simp)
    simp only [List.map_cons, run]
    rw [Request.value_perform hr hc]
    exact congrArg _ (ih (fun q hq => h q (List.mem_cons_of_mem _ hq)) _
      (Request.coherent_perform hr hc))

/-- A schema whose property refers to another file of its directory. -/
def schemas : Source := Source.ofList [
  (⟨"schemas/common.json"⟩, some "\x7b\"Score\":\x7b\"type\":\"integer\"\x7d\x7d"),
  (⟨"schemas/review.json"⟩, some
    "\x7b\"title\":\"Review\",\"properties\":\x7b\"score\":\x7b\"$ref\":\"common.json#/Score\"\x7d\x7d\x7d")]

def scoreRequests : List Request :=
  [.compileFile ⟨"schemas/missing.json"⟩ {}, .compileFile ⟨"schemas/review.json"⟩ {},
    .compile ⟨.obj [("title", .str "Score"),
      ("properties", .obj [("score", .obj [("$ref", .str "common.json#/Score")])])], ⟨"schemas"⟩⟩ {}]

/-- The second request caches a document that the third is then served. -/
theorem score_sharing_invisible :
    (∀ r ∈ scoreRequests, ∀ b ∈ r.directory?, b = ⟨"schemas"⟩) ∧
    (cacheAfter Cache.empty (scoreRequests.map (schemas, ·))).size = 1 ∧
    (run Cache.empty (scoreRequests.map (schemas, ·))).map Outcome.value =
      scoreRequests.map fun r => (r.perform.run schemas Cache.empty).value := by
  have h : ∀ r ∈ scoreRequests, ∀ b ∈ r.directory?, b = ⟨"schemas"⟩ := by
    decide +kernel
  exact ⟨h, by decide +kernel, sharing_invisible schemas ⟨"schemas"⟩ scoreRequests h⟩

end Session

end OnchainSchema
