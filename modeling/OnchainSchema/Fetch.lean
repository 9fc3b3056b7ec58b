import OnchainSchema.Cache
import OnchainSchema.Journal

/-!
Computations that load documents through a cache and keep a journal. The journal of two steps in a
row is the one followed by the other.
-/
namespace OnchainSchema

structure Outcome (α : Type) where
  value : α
  cache : Cache
  journal : Journal

def Fetch (α : Type) := Source → Cache → Outcome α

namespace Fetch

variable {α β : Type}

def run (x : Fetch α) (s : Source) (c : Cache) : Outcome α := x s c

def pure (a : α) : Fetch α := fun _ c => ⟨a, c, []⟩

def bind (x : Fetch α) (f : α → Fetch β) : Fetch β := fun s c =>
  let o := x s c
  let o' := f o.value s o.cache
  ⟨o'.value, o'.cache, o.journal ++ o'.journal⟩

instance : Monad Fetch where
  pure := pure
  bind := bind

@[simp] theorem run_pure (a : α) (s : Source) (c : Cache) :
    (Pure.pure a : Fetch α).run s c = ⟨a, c, []⟩ := rfl

@[simp] theorem run_bind (x : Fetch α) (f : α → Fetch β) (s : Source) (c : Cache) :
    (x >>= f).run s c =
      ⟨((f (x.run s c).value).run s (x.run s c).cache).value,
        ((f (x.run s c).value).run s (x.run s c).cache).cache,
        (x.run s c).journal ++ ((f (x.run s c).value).run s (x.run s c).cache).journal⟩ := rfl

@[simp] theorem run_map (g : α → β) (x : Fetch α) (s : Source) (c : Cache) :
    (g <$> x).run s c = ⟨g (x.run s c).value, (x.run s c).cache, (x.run s c).journal⟩ := by
  change Outcome.mk _ _ ((x s c).journal ++ []) = _
  rw [List.append_nil]
  rfl

def log (e : Event) : Fetch Unit := fun _ c => ⟨(), c, [.logged e]⟩

@[simp] theorem run_log (e : Event) (s : Source) (c : Cache) :
    (log e).run s c = ⟨(), c, [.logged e]⟩ := rfl

/-- Notes that the document of a file was obtained. -/
def noteObtained (file : String) : Fetch Unit := fun _ c => ⟨(), c, [.obtained file]⟩

@[simp] theorem run_noteObtained (file : String) (s : Source) (c : Cache) :
    (noteObtained file).run s c = ⟨(), c, [.obtained file]⟩ := rfl

/-- Loads a document past the cache. -/
def loadRoot (p : Path) : Fetch (Except LoadError Json) := fun s c =>
  ⟨s.load p, c, if s.has p then [.checked p, .opened p] else [.checked p]⟩

@[simp] theorem run_loadRoot (p : Path) (s : Source) (c : Cache) :
    (loadRoot p).run s c =
      ⟨s.load p, c, if s.has p then [.checked p, .opened p] else [.checked p]⟩ := rfl

def lookup (key : String) : Fetch (Option Json) := fun _ c => ⟨c.get? key, c, []⟩

@[simp] theorem run_lookup (key : String) (s : Source) (c : Cache) :
    (lookup key).run s c = ⟨c.get? key, c, []⟩ := rfl

def hold (key : String) (document : Json) : Fetch Unit := fun _ c => ⟨(), c.add key document, []⟩

@[simp] theorem run_hold (key : String) (document : Json) (s : Source) (c : Cache) :
    (hold key document).run s c = ⟨(), c.add key document, []⟩ := rfl

/-- The document of a file named in a reference from `base`. It is loaded at most once for each way
of writing the name; a load that fails is tried again the next time. -/
def load (file : String) (base : Path) : Fetch (Option Json) := do
  match ← lookup file with
  | some document =>
    log (.servedFromCache file)
    noteObtained file
    return some document
  | none =>
    match ← loadRoot (base.join file) with
    | .ok document =>
      hold file document
      noteObtained file
      return some document
    | .error error =>
      log (.externalNotLoaded file error)
      return none

end Fetch

end OnchainSchema
