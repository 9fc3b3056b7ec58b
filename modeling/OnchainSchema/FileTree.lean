import OnchainSchema.Path
import OnchainSchema.Json.Basic

/-! A tree of files and directories with a current directory. -/
namespace OnchainSchema

/-- What the operating system allows with a directory. -/
structure DirAccess where
  /-- To list its entries. -/
  list : Bool := true
  /-- To look up entries by their names. -/
  search : Bool := true
  /-- To put new entries into it. -/
  extend : Bool := true
  deriving DecidableEq, Repr

/-- What it allows with a file. Whoever can write a file can read it. -/
inductive FileAccess where
  | free
  | readOnly
  | closed
  deriving DecidableEq, Repr

inductive Entry where
  | file (bytes : ByteArray) (access : FileAccess := .free)
  | dir (entries : List (OsText × Entry)) (access : DirAccess := {})

structure FileTree where
  root : Entry
  /-- The names that lead from the root to the current directory. -/
  cwd : List OsText

/-- Why a file cannot be read or written. -/
inductive FileFault where
  | missing
  | notDirectory
  | isDirectory
  | nameTooLong
  | notText
  | noAccess
  /-- A document that is held in memory without a text. -/
  | denied
  deriving DecidableEq, Repr

def FileFault.message : FileFault → String
  | .missing => "No such file or directory (os error 2)"
  | .notDirectory => "Not a directory (os error 20)"
  | .isDirectory => "Is a directory (os error 21)"
  | .nameTooLong => "File name too long (os error 36)"
  | .notText => "stream did not contain valid UTF-8"
  | .noAccess => "Permission denied (os error 13)"
  | .denied => "permission denied"

namespace Entry

def at? : Entry → List OsText → Option Entry
  | e, [] => some e
  | .dir es _, n :: ns => (Members.get? n es).bind (at? · ns)
  | .file _ _, _ :: _ => none

/-- Puts an entry at the end of a chain of names, with directories on the way. -/
def place (new : Entry) : List OsText → Entry → Entry
  | [], _ => new
  | n :: ns, .dir es access =>
    .dir (Members.put n (place new ns ((Members.get? n es).getD (.dir []))) es) access
  | n :: ns, .file _ _ => .dir [(n, place new ns (.dir []))]

def remove : List OsText → Entry → Entry
  | [n], .dir es access => .dir (es.filter (·.1 != n)) access
  | n :: ns, .dir es access =>
    .dir (es.map fun e => if e.1 = n then (n, remove ns e.2) else e) access
  | _, e => e

end Entry

namespace FileTree

/-- The tree with this one current directory and nothing else. -/
def empty (cwd : List OsText) : FileTree := ⟨Entry.place (.dir []) cwd (.dir []), cwd⟩

/-- The most bytes that a name may have. -/
def nameLimit : Nat := 255

/-- The most bytes that a path may have. -/
def pathLimit : Nat := 4095

/-- Goes from the directory `place` along the segments of a path. Every place that is left must be a
directory that can be searched, and above the root is the root. A name that is too long is refused
where it is looked up, so a fault on the way to it comes first. -/
def walk (root : Entry) : List OsText → List OsText → Except FileFault (List OsText)
  | place, [] => .ok place
  | place, s :: ss =>
    match root.at? place with
    | none => .error .missing
    | some (.file _ _) => .error .notDirectory
    | some (.dir _ access) =>
      -- nothing is looked up between two slashes or after the last
      if s ≠ "" ∧ !access.search then .error .noAccess
      else if s = "" ∨ s = "." then walk root place ss
      else if s = ".." then walk root place.dropLast ss
      else if nameLimit < s.size then .error .nameTooLong
      else walk root (place ++ [s]) ss

/-- Where a path starts and its segments from there. -/
def start (t : FileTree) (p : Path) : List OsText × List OsText :=
  if p.isAbsolute then ([], p.segments.drop 1) else (t.cwd, p.segments)

/-- What is wrong with a path whatever the tree holds. -/
def pathFault? (p : Path) : Option FileFault :=
  if p.raw = "" then some .missing
  else if pathLimit < p.raw.size then some .nameTooLong
  else none

theorem pathFault?_eq_none_iff {p : Path} :
    pathFault? p = none ↔ p.raw ≠ "" ∧ p.raw.size ≤ pathLimit := by
  rw [pathFault?]
  split
  next hempty => simp [hempty]
  next hempty =>
    split
    next hlong => simp [Nat.not_le.mpr hlong]
    next hlong => simp [hempty, Nat.not_lt.mp hlong]

/-- The place a path names, whether something is there or not. -/
def locate (t : FileTree) (p : Path) : Except FileFault (List OsText) :=
  match pathFault? p with
  | some fault => .error fault
  | none => walk t.root (t.start p).1 (t.start p).2

def entry? (t : FileTree) (p : Path) : Option Entry :=
  match t.locate p with
  | .ok place => t.root.at? place
  | .error _ => none

theorem entry?_eq_some {t : FileTree} {p : Path} {e : Entry} (h : t.entry? p = some e) :
    p.raw ≠ "" ∧ p.raw.size ≤ pathLimit ∧
      ∃ place, t.locate p = .ok place ∧ t.root.at? place = some e := by
  unfold entry? at h
  split at h
  next place hplace =>
    have hfault : pathFault? p = none := by
      unfold locate at hplace
      split at hplace
      · cases hplace
      · assumption
    obtain ⟨hraw, hsize⟩ := pathFault?_eq_none_iff.mp hfault
    exact ⟨hraw, hsize, place, hplace, h⟩
  next => cases h

def has (t : FileTree) (p : Path) : Bool := (t.entry? p).isSome

/-- Whether a directory can be seen at a path. -/
def isDir (t : FileTree) (p : Path) : Bool :=
  match t.entry? p with
  | some (.dir _ _) => true
  | _ => false

/-- The text of a file. -/
def read (t : FileTree) (p : Path) : Except FileFault String :=
  match t.locate p with
  | .error fault => .error fault
  | .ok place =>
    match t.root.at? place with
    | none => .error .missing
    | some (.dir _ access) => .error (if access.list then .isDirectory else .noAccess)
    | some (.file bytes access) =>
      if access = .closed then .error .noAccess
      else
        match String.fromUTF8? bytes with
        | some text => .ok text
        | none => .error .notText

/-- Why no file can be written at a place. -/
def writeFault? (root : Entry) (place : List OsText) : Option FileFault :=
  match root.at? place with
  | some (.dir _ _) => some .isDirectory
  | some (.file _ access) => if access = .free then none else some .noAccess
  | none =>
    match root.at? place.dropLast with
    | some (.dir _ access) => if access.extend then none else some .noAccess
    | _ => some .missing

/-- Makes or replaces a file in a directory that exists. A path that ends in a slash names no file.
-/
def write (t : FileTree) (p : Path) (text : String) : Except FileFault FileTree :=
  match pathFault? p with
  | some fault => .error fault
  | none =>
    let (from_, segments) := t.start p
    let named := (segments.reverse.dropWhile (·.bytes.isEmpty)).reverse
    if named = segments then
      match walk t.root from_ segments with
      | .error fault => .error fault
      | .ok place =>
        match writeFault? t.root place with
        | some fault => .error fault
        | none => .ok { t with root := Entry.place (.file text.toUTF8) place t.root }
    else
      match walk t.root from_ (named.dropLast ++ [OsText.ofString "."]) with
      | .error fault => .error fault
      | .ok _ => .error .isDirectory

/-- The place a path spells, without looking at the tree. -/
def spelledPlace (t : FileTree) (p : Path) : List OsText :=
  p.components.foldl Path.Component.enter t.cwd

/-- Makes a directory at a place, and those on the way. One that is there is kept. -/
def makeDirAt (t : FileTree) (place : List OsText) : FileTree :=
  match t.root.at? place with
  | some (.dir _ _) => t
  | _ => { t with root := Entry.place (.dir []) place t.root }

/-- Makes the directories that a path spells, also those that it leaves again. -/
def makeDir (t : FileTree) (p : Path) : FileTree :=
  (p.components.foldl (fun (made : FileTree × List OsText) c =>
    let place := c.enter made.2
    (made.1.makeDirAt place, place)) (t, t.cwd)).1

/-- Puts an entry at a path, with the directories on the way. -/
def put (t : FileTree) (p : Path) (e : Entry) : FileTree :=
  let made := p.parent?.elim t t.makeDir
  { made with root := Entry.place e (t.spelledPlace p) made.root }

def erase (t : FileTree) (p : Path) : FileTree :=
  { t with root := Entry.remove (t.spelledPlace p) t.root }

end FileTree

end OnchainSchema
