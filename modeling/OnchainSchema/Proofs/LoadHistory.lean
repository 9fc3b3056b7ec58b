import Mathlib.Data.List.Dedup
import OnchainSchema.Proofs.SharedSession

/-!
The loads of a session, whatever happens to the source between its requests. The first load of a key
that succeeds settles the document of the key for good; until then each load asks the source.
-/
namespace OnchainSchema

open Fetch

/-- One load, with the source and the cache that it meets. -/
structure LoadStep where
  key : String
  base : Path
  source : Source
  cache : Cache

namespace LoadStep

def outcome (l : LoadStep) : Outcome (Option Json) := (load l.key l.base).run l.source l.cache

def document? (l : LoadStep) : Option Json := l.outcome.value

theorem get?_outcome (l : LoadStep) (key : String) :
    l.outcome.cache.get? key = if key = l.key then l.document? else l.cache.get? key :=
  get?_load l.key l.base l.source l.cache key

/-- A load does not lose what the cache holds. -/
theorem document?_of_get? {l : LoadStep} {document : Json}
    (h : l.cache.get? l.key = some document) : l.document? = some document := by
  rw [document?, outcome, run_load_of_get? h]

/-- A load that finds nothing leaves the cache as it is. -/
theorem unchanged_of_none {l : LoadStep} (h : l.document? = none) :
    l.outcome.cache = l.cache ∧ ∃ error, l.source.load (l.base.join l.key) = .error error := by
  rw [document?] at h
  unfold outcome at h ⊢
  cases hget : l.cache.get? l.key with
  | some document =>
    rw [run_load_of_get? hget] at h
    cases h
  | none =>
    rw [run_load_of_none hget] at h ⊢
    cases hload : l.source.load (l.base.join l.key) with
    | ok document =>
      rw [hload] at h
      cases h
    | error error => exact ⟨rfl, error, rfl⟩

/-- A load whose key is not cached asks the source. -/
theorem asks_of_none {l : LoadStep} (h : l.cache.get? l.key = none) :
    l.document? = (l.source.load (l.base.join l.key)).toOption ∧
      l.outcome.journal.accesses = inquiry l.source (l.base.join l.key) := by
  have hinquiry : Journal.accesses (inquiry l.source (l.base.join l.key)) =
      inquiry l.source (l.base.join l.key) := by
    unfold inquiry
    split <;> rfl
  rw [document?, outcome, run_load_of_none h]
  cases l.source.load (l.base.join l.key) with
  | ok document =>
    refine ⟨rfl, ?_⟩
    rw [Journal.accesses_append, hinquiry]
    exact List.append_nil _
  | error error =>
    refine ⟨rfl, ?_⟩
    rw [Journal.accesses_append, hinquiry]
    exact List.append_nil _

/-- The keys of the loads that succeed. -/
def foundKeys (ls : List LoadStep) : List String :=
  (ls.filter fun l => l.document?.isSome).map key

/-- What the first load of a key that succeeds has given. -/
def firstFound (key : String) (ls : List LoadStep) : Option Json :=
  ls.findSome? fun l => if l.key = key then l.document? else none

@[simp] theorem foundKeys_append (ls ls' : List LoadStep) :
    foundKeys (ls ++ ls') = foundKeys ls ++ foundKeys ls' := by
  simp [foundKeys]

@[simp] theorem firstFound_cons (key : String) (l : LoadStep) (ls : List LoadStep) :
    firstFound key (l :: ls) =
      (if l.key = key then l.document? else none).or (firstFound key ls) := by
  rw [firstFound, List.findSome?_cons]
  cases hl : if l.key = key then l.document? else none with
  | some document => rfl
  | none => rfl

theorem isSome_firstFound {key : String} {ls : List LoadStep} :
    (firstFound key ls).isSome ↔ key ∈ foundKeys ls := by
  rw [firstFound, List.isSome_findSome?, List.any_eq_true, foundKeys]
  simp only [List.mem_map, List.mem_filter]
  constructor
  · rintro ⟨l, hl, h⟩
    split at h
    · exact ⟨l, ⟨hl, h⟩, ‹l.key = key›⟩
    · simp at h
  · rintro ⟨l, ⟨hl, h⟩, rfl⟩
    exact ⟨l, hl, by simpa using h⟩

/-- The loads follow each other: each meets the cache that the one before it has left. -/
inductive Threads : Cache → List LoadStep → Cache → Prop
  | nil (c : Cache) : Threads c [] c
  | cons {l : LoadStep} {ls : List LoadStep} {c' : Cache} (h : Threads l.outcome.cache ls c') :
      Threads l.cache (l :: ls) c'

namespace Threads

variable {c c' c'' : Cache} {ls ls' : List LoadStep}

theorem append (h : Threads c ls c') (h' : Threads c' ls' c'') : Threads c (ls ++ ls') c'' := by
  induction h with
  | nil c => exact h'
  | cons h ih => exact .cons (ih h')

theorem split {l : LoadStep} (h : Threads c (ls ++ l :: ls') c') :
    Threads c ls l.cache ∧ Threads l.outcome.cache ls' c' := by
  induction ls generalizing c with
  | nil =>
    cases h with
    | cons h => exact ⟨.nil _, h⟩
  | cons first rest ih =>
    cases h with
    | cons h =>
      obtain ⟨hbefore, hafter⟩ := ih h
      exact ⟨.cons hbefore, hafter⟩

/-- What a cache holds after some loads: what it held before, or else what was first found. -/
theorem get?_eq (h : Threads c ls c') (key : String) :
    c'.get? key = (c.get? key).or (firstFound key ls) := by
  induction h with
  | nil c => simp [firstFound]
  | @cons l ls c' h ih =>
    rw [ih, get?_outcome, firstFound_cons]
    by_cases hk : key = l.key
    · subst hk
      cases hget : l.cache.get? l.key with
      | some document => simp [document?_of_get? hget]
      | none => simp
    · simp [hk, Ne.symm hk]

theorem get?_of_get? (h : Threads c ls c') {key : String} {document : Json}
    (hget : c.get? key = some document) : c'.get? key = some document := by
  rw [h.get?_eq, hget]
  rfl

/-- From the empty cache, the size counts the keys that were found. -/
theorem size_eq (h : Threads Cache.empty ls c') : c'.size = (foundKeys ls).dedup.length := by
  have hmem : ∀ key, key ∈ Members.keys c'.entries ↔ key ∈ (foundKeys ls).dedup := by
    intro key
    rw [List.mem_dedup, ← isSome_firstFound, ← Members.hasKey_iff]
    change c'.contains key ↔ _
    rw [Cache.contains_iff, h.get?_eq, Cache.get?_empty, Option.none_or]
  have hperm : (Members.keys c'.entries).Perm (foundKeys ls).dedup :=
    (List.perm_ext_iff_of_nodup c'.keys_nodup (List.nodup_dedup _)).mpr hmem
  rw [← hperm.length_eq, Members.keys, List.length_map]
  rfl

end Threads

end LoadStep

open LoadStep

namespace Fetch

/-- The loads that a computation makes from a cache, in order. -/
inductive Loads (s : Source) : {α : Type} → Fetch α → Cache → List LoadStep → Prop
  | pure {α : Type} (a : α) (c : Cache) : Loads s (Pure.pure a : Fetch α) c []
  | log (e : Event) (c : Cache) : Loads s (log e) c []
  | loadRoot (p : Path) (c : Cache) : Loads s (loadRoot p) c []
  | load (file : String) (base : Path) (c : Cache) :
      Loads s (load file base) c [⟨file, base, s, c⟩]
  | bind {α β : Type} {x : Fetch α} {f : α → Fetch β} {c : Cache} {ls ls' : List LoadStep}
      (hx : Loads s x c ls) (hf : Loads s (f (x.run s c).value) (x.run s c).cache ls') :
      Loads s (x >>= f) c (ls ++ ls')

variable {α : Type} {x : Fetch α}

theorem LoadsFrom.exists_loads {dirs : Path → Prop} (h : LoadsFrom dirs x) (s : Source)
    (c : Cache) : ∃ ls, Loads s x c ls := by
  induction h generalizing c with
  | pure a => exact ⟨_, .pure a c⟩
  | log e => exact ⟨_, .log e c⟩
  | loadRoot p => exact ⟨_, .loadRoot p c⟩
  | load file => exact ⟨_, .load file _ c⟩
  | bind _ _ ihx ihf =>
    obtain ⟨ls, hx⟩ := ihx c
    obtain ⟨ls', hf⟩ := ihf _ _
    exact ⟨_, .bind hx hf⟩

/-- Nothing but its loads changes the cache. -/
theorem Loads.threads {s : Source} {c : Cache} {ls : List LoadStep} (h : Loads s x c ls) :
    Threads c ls (x.run s c).cache := by
  induction h with
  | pure a c => exact .nil c
  | log e c => exact .nil c
  | loadRoot p c => exact .nil c
  | load file base c => exact @Threads.cons ⟨file, base, s, c⟩ _ _ (.nil _)
  | bind _ _ ihx ihf => exact ihx.append ihf

@[simp] theorem obtained_inquiry (s : Source) (p : Path) : (inquiry s p).obtained = [] := by
  unfold inquiry
  split <;> rfl

theorem obtained_load (l : LoadStep) : l.outcome.journal.obtained = foundKeys [l] := by
  have hkeys : foundKeys [l] = if l.document?.isSome then [l.key] else [] := by
    cases hl : l.document?.isSome <;> simp [foundKeys, hl]
  rw [hkeys, document?, outcome]
  cases hget : l.cache.get? l.key with
  | some document =>
    rw [run_load_of_get? hget]
    rfl
  | none =>
    rw [run_load_of_none hget]
    cases l.source.load (l.base.join l.key) <;> simp <;> rfl

/-- The journal notes the loads that succeed. -/
theorem Loads.obtained {s : Source} {c : Cache} {ls : List LoadStep} (h : Loads s x c ls) :
    (x.run s c).journal.obtained = foundKeys ls := by
  induction h with
  | pure a c => rfl
  | log e c => rfl
  | loadRoot p c =>
    rw [run_loadRoot]
    exact obtained_inquiry s p
  | load file base c => exact obtained_load ⟨file, base, s, c⟩
  | bind _ _ ihx ihf =>
    rw [run_bind, Journal.obtained_append, ihx, ihf, foundKeys_append]

end Fetch

namespace Cache

/-- The cache holds a document, and every load of its key gives it without asking the source. -/
structure Holds (c : Cache) (key : String) (document : Json) : Prop where
  get? : c.get? key = some document
  value : ∀ base s, ((load key base).run s c).value = some document
  accesses : ∀ base s, ((load key base).run s c).journal.accesses = []

theorem holds_of_get? {c : Cache} {key : String} {document : Json}
    (h : c.get? key = some document) : c.Holds key document where
  get? := h
  value base s := by rw [run_load_of_get? h]
  accesses base s := by
    rw [run_load_of_get? h]
    rfl

end Cache

namespace Session

/-- The loads that the requests of a session make, in order. -/
inductive History : Cache → List (Source × Request) → List LoadStep → Prop
  | nil (c : Cache) : History c [] []
  | cons {c : Cache} {s : Source} {r : Request} {rest : List (Source × Request)}
      {ls ls' : List LoadStep} (h : Loads s r.perform c ls)
      (h' : History (r.perform.run s c).cache rest ls') : History c ((s, r) :: rest) (ls ++ ls')

theorem exists_history (c : Cache) (requests : List (Source × Request)) :
    ∃ ls, History c requests ls := by
  induction requests generalizing c with
  | nil => exact ⟨[], .nil c⟩
  | cons q rest ih =>
    obtain ⟨s, r⟩ := q
    have hr : LoadsFrom (fun _ => True) r.perform := Request.loadsFrom_perform fun _ _ => trivial
    obtain ⟨ls, h⟩ := hr.exists_loads s c
    obtain ⟨ls', h'⟩ := ih (r.perform.run s c).cache
    exact ⟨ls ++ ls', .cons h h'⟩

theorem History.append {c : Cache} {p q : List (Source × Request)} {ls ls' : List LoadStep}
    (h : History c p ls) (h' : History (cacheAfter c p) q ls') :
    History c (p ++ q) (ls ++ ls') := by
  induction h with
  | nil c => exact h'
  | cons hr _ ih =>
    rw [List.append_assoc]
    exact .cons hr (ih h')

theorem History.threads {c : Cache} {requests : List (Source × Request)} {ls : List LoadStep}
    (h : History c requests ls) : Threads c ls (cacheAfter c requests) := by
  induction h with
  | nil c => exact .nil c
  | cons hr _ ih => exact hr.threads.append ih

theorem History.obtained {c : Cache} {requests : List (Source × Request)} {ls : List LoadStep}
    (h : History c requests ls) :
    Journal.obtained ((run c requests).flatMap Outcome.journal) = foundKeys ls := by
  induction h with
  | nil c => rfl
  | cons hr _ ih =>
    rw [run, List.flatMap_cons, Journal.obtained_append, hr.obtained, ih, foundKeys_append]

/-- What the loads of a session that begins with an empty cache come to. -/
structure WriteOnce (requests : List (Source × Request)) (loads : List LoadStep) : Prop where
  /-- The journal notes exactly the loads that succeed. -/
  noted : Journal.obtained ((run Cache.empty requests).flatMap Outcome.journal) = foundKeys loads
  /-- A document that was found is there for every later load, in this session and its
  continuations. -/
  kept : ∀ earlier l later document, loads = earlier ++ l :: later → l.document? = some document →
    (∀ l' ∈ later, l'.cache.Holds l.key document) ∧
    ∀ more, (cacheAfter Cache.empty (requests ++ more)).Holds l.key document
  /-- A load that finds nothing changes nothing. -/
  failed : ∀ l ∈ loads, l.document? = none →
    l.outcome.cache = l.cache ∧ ∃ error, l.source.load (l.base.join l.key) = .error error
  /-- As long as a key was not found, each load of it asks the source. -/
  asked : ∀ earlier l later, loads = earlier ++ l :: later → l.key ∉ foundKeys earlier →
    l.document? = (l.source.load (l.base.join l.key)).toOption ∧
    l.outcome.journal.accesses = inquiry l.source (l.base.join l.key)
  /-- Root documents are not cached. -/
  root : ∀ file s, ((Request.loadRoot file).perform.run s (cacheAfter Cache.empty requests)).cache =
    cacheAfter Cache.empty requests
  size : (cacheAfter Cache.empty requests).size = (foundKeys loads).dedup.length

variable {requests : List (Source × Request)} {ls earlier later : List LoadStep} {l : LoadStep}

/-- What a load has found is still there when a later one begins. -/
theorem History.holds_later {document : Json} (h : History Cache.empty requests ls)
    (hls : ls = earlier ++ l :: later) (hl : l.document? = some document) :
    (∀ l' ∈ later, l'.cache.Holds l.key document) ∧
      ∀ more, (cacheAfter Cache.empty (requests ++ more)).Holds l.key document := by
  have hafter : l.outcome.cache.get? l.key = some document := by
    rw [get?_outcome, if_pos rfl, hl]
  constructor
  · intro l' hl'
    obtain ⟨between, rest, rfl⟩ := List.append_of_mem hl'
    subst hls
    obtain ⟨hbetween, -⟩ := h.threads.split.2.split
    exact Cache.holds_of_get? (hbetween.get?_of_get? hafter)
  · intro more
    obtain ⟨added, hadded⟩ := exists_history (cacheAfter Cache.empty requests) more
    have hall : Threads Cache.empty (earlier ++ l :: (later ++ added))
        (cacheAfter Cache.empty (requests ++ more)) := by
      simpa [hls] using (h.append hadded).threads
    exact Cache.holds_of_get? (hall.split.2.get?_of_get? hafter)

/-- A load that follows no success for its key meets a cache without it. -/
theorem History.get?_eq_none (h : History Cache.empty requests ls)
    (hls : ls = earlier ++ l :: later) (hl : l.key ∉ foundKeys earlier) :
    l.cache.get? l.key = none := by
  subst hls
  have hfirst : firstFound l.key earlier = none := by
    rwa [← Option.not_isSome_iff_eq_none, isSome_firstFound]
  rw [h.threads.split.1.get?_eq, hfirst]
  rfl

/-- Whatever the requests are and whatever source each of them meets, the loads of a session write
each document once. -/
theorem documents_write_once (requests : List (Source × Request)) :
    (∃ loads, History Cache.empty requests loads) ∧
      ∀ loads, History Cache.empty requests loads → WriteOnce requests loads := by
  refine ⟨exists_history Cache.empty requests, fun loads h => ?_⟩
  constructor
  case noted => exact h.obtained
  case kept =>
    intro earlier l later document hls hl
    exact h.holds_later hls hl
  case failed =>
    intro l _ hl
    exact l.unchanged_of_none hl
  case asked =>
    intro earlier l later hls hl
    exact l.asks_of_none (h.get?_eq_none hls hl)
  case root => exact fun file s => rfl
  case size => exact h.threads.size_eq

/-- The types of a directory that come and go: at first no file, then one, and in the end a file
with other content. -/
def typesOver (content : Option String) : Source :=
  Source.ofList (content.toList.map fun text => (⟨"a/types.json"⟩, some text))

def typesRequests : List (Source × Request) := [
  (typesOver none, .load "types.json" ⟨"a"⟩),
  (typesOver (some "[1]"), .resolve ⟨.obj [], ⟨"a"⟩⟩ "types.json#/0"),
  (typesOver (some "[2]"), .load "types.json" ⟨"a"⟩),
  (typesOver none, .load "types.json" ⟨"b"⟩)]

/-- The first request finds nothing; the last two get the document that the second has found. -/
theorem types_written_once : ∃ loads, History Cache.empty typesRequests loads ∧
    WriteOnce typesRequests loads ∧ foundKeys loads = ["types.json", "types.json", "types.json"] ∧
    (cacheAfter Cache.empty typesRequests).size = 1 ∧
    ∃ document, document.compact = "[1]" ∧
      (cacheAfter Cache.empty typesRequests).Holds "types.json" document := by
  obtain ⟨⟨loads, h⟩, hall⟩ := documents_write_once typesRequests
  have honce := hall loads h
  have hheld : ((cacheAfter Cache.empty typesRequests).get? "types.json").map Json.compact =
      some "[1]" := by decide
  obtain ⟨document, hget, hcompact⟩ := Option.map_eq_some_iff.mp hheld
  refine ⟨loads, h, honce, ?_, by decide, document, hcompact, Cache.holds_of_get? hget⟩
  rw [← honce.noted]
  decide

end Session

end OnchainSchema
