import OnchainSchema.FileTree
import OnchainSchema.Json.Grammar

/-! Where documents come from, and what it takes to load one. -/
namespace OnchainSchema

/-- A store of documents that answers by path alone. -/
structure Source where
  has : Path → Bool
  read : Path → Except FileFault String

inductive LoadError where
  | notFound (path : Path)
  | unreadable (path : Path) (fault : FileFault)
  | invalidJson (fault : Json.Fault)
  deriving DecidableEq, Repr

namespace LoadError

def message : LoadError → String
  | .notFound path => "file not found: " ++ path.text
  | .unreadable path fault => "cannot read " ++ path.text ++ ": " ++ fault.message
  | .invalidJson fault => "invalid JSON: " ++ fault.message

/-- Trouble with files is 3, trouble with their content 2. -/
def exitCode : LoadError → Nat
  | .notFound _ | .unreadable _ _ => 3
  | .invalidJson _ => 2

end LoadError

/-- The document that a text holds. -/
def Json.load (text : String) : Except LoadError Json :=
  match Json.parse text with
  | .ok document => .ok document
  | .error fault => .error (.invalidJson fault)

namespace Source

def load (s : Source) (p : Path) : Except LoadError Json :=
  if s.has p then
    match s.read p with
    | .ok text => Json.load text
    | .error fault => .error (.unreadable p fault)
  else .error (.notFound p)

/-- No object in a document that is loaded has a key twice. -/
theorem keysDistinct_of_load {s : Source} {p : Path} {document : Json}
    (h : s.load p = .ok document) : document.KeysDistinct := by
  unfold load at h
  split at h
  · split at h
    · unfold Json.load at h
      split at h
      next hparse =>
        cases h
        exact Json.keysDistinct_of_parse hparse
      next => cases h
    · cases h
  · cases h

/-- Documents held under paths, no two of which are the same; one without a text cannot be read. -/
def ofList (documents : List (Path × Option String)) : Source where
  has p := documents.any (·.1.same p)
  read p :=
    match documents.find? (·.1.same p) with
    | some (_, some text) => .ok text
    | some (_, none) => .error .denied
    | none => .error .missing

end Source

/-- The files of a tree as a source. -/
def FileTree.source (t : FileTree) : Source := ⟨t.has, t.read⟩

@[simp] theorem FileTree.has_source (t : FileTree) : t.source.has = t.has := rfl

@[simp] theorem FileTree.read_source (t : FileTree) : t.source.read = t.read := rfl

end OnchainSchema
