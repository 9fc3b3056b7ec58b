import OnchainSchema.OsText

/-!
File paths. A path is the text of the operating system that spells it; what it names, its order and
its parent go by components, so that repeated slashes and inner `.` segments do not count.
-/
namespace OnchainSchema

structure Path where
  raw : OsText
  deriving DecidableEq, Repr, Inhabited

namespace Path

/-- How the path is shown. -/
def text (p : Path) : String := p.raw.shown

inductive Component where
  | root
  | here
  | up
  | name (s : OsText)
  deriving DecidableEq, Repr

/-- Where a component leads from a place, given as the names on the way to it. -/
def Component.enter (place : List OsText) : Component → List OsText
  | root => []
  | here => place
  | up => place.dropLast
  | name s => place ++ [s]

/-- The component of a segment that is not the first; empty segments and `.` have none. -/
def innerComponent (segment : OsText) : Option Component :=
  if segment = "" ∨ segment = "." then none
  else if segment = ".." then some .up
  else some (.name segment)

def isIdle (segment : OsText) : Bool := (innerComponent segment).isNone

/-- The byte between the segments of a path. -/
def slash : UInt8 := 0x2F

/-- The byte before an extension. -/
def dot : UInt8 := 0x2E

def segments (p : Path) : List OsText := p.raw.split slash

def isAbsolute (p : Path) : Bool := p.raw.bytes.head? = some slash

/-- A leading slash is the root and a leading `.` is kept. -/
def components (p : Path) : List Component :=
  match p.segments with
  | [] => []
  | first :: rest =>
    let head :=
      if first = "" then (if rest = [] then [] else [.root])
      else if first = "." then [.here]
      else (innerComponent first).toList
    head ++ rest.filterMap innerComponent

/-- Without the idle segments at the end. -/
def trimEnd (segments : List OsText) : List OsText :=
  (segments.reverse.dropWhile isIdle).reverse

def ofSegments (first : OsText) (rest : List OsText) : Path :=
  if first = "" ∧ rest = [] then ⟨"/"⟩ else ⟨OsText.join slash (first :: rest)⟩

/-- The path without its last component; the root and the empty path have no parent. -/
def parent? (p : Path) : Option Path :=
  match p.segments with
  | [] => none
  | first :: rest =>
    if trimEnd rest = [] then (if first = "" then none else some ⟨""⟩)
    else some (ofSegments first (trimEnd (trimEnd rest).dropLast))

/-- The directory that a file's references are relative to. -/
def directory (p : Path) : Path := p.parent?.getD ⟨"."⟩

/-- An absolute path stands for itself; any other is read from `base`. -/
def join (base : Path) (p : OsText) : Path :=
  if (Path.mk p).isAbsolute ∨ base.raw = "" then ⟨p⟩
  else if base.raw.bytes.getLast? = some slash then ⟨base.raw ++ p⟩
  else ⟨base.raw ++ "/" ++ p⟩

/-- The segments after the first `n` components among them. -/
def dropComponents : Nat → List OsText → List OsText
  | 0, ss => ss
  | _ + 1, [] => []
  | n + 1, s :: ss => if isIdle s then dropComponents (n + 1) ss else dropComponents n ss

/-- The part of `p` below `base`, if `p` begins with the components of `base`. -/
def below? (p base : Path) : Option Path :=
  if base.components.isPrefixOf p.components then
    match base.components, p.segments with
    | [], first :: rest => if p.raw = "" then some p else some (ofSegments first (trimEnd rest))
    | _ :: cs, _ :: rest =>
      some ⟨OsText.join slash ((trimEnd (dropComponents cs.length rest)).dropWhile isIdle)⟩
    | _, [] => some p
  else none

def name? (p : Path) : Option OsText :=
  match p.components.getLast? with
  | some (.name s) => some s
  | _ => none

/-- The part of the name after its last dot, unless that dot begins the name. -/
def extension? (p : Path) : Option OsText := do
  let bs := (← p.name?).bytes
  let ext := (bs.reverse.takeWhile (· != dot)).reverse
  if ext.length + 1 < bs.length then some ⟨ext⟩ else none

/-- Two texts for one path. -/
def same (p q : Path) : Bool := p.components == q.components

def Component.rank : Component → Nat
  | .root => 0
  | .here => 1
  | .up => 2
  | .name _ => 3

def Component.before : Component → Component → Bool
  | .name s, .name t => s < t
  | a, b => a.rank < b.rank

def componentsLe : List Component → List Component → Bool
  | [], _ => true
  | _ :: _, [] => false
  | a :: as, b :: bs => if a = b then componentsLe as bs else a.before b

/-- Component by component, names by their bytes. -/
def le (p q : Path) : Bool := componentsLe p.components q.components

example : (Path.mk "d/./r.json/").parent? = some ⟨"d"⟩ := by decide
example : (Path.mk "/r.json").parent? = some ⟨"/"⟩ := by decide
example : (Path.mk "r.json").parent? = some ⟨""⟩ := by decide
example : (Path.mk "./a//b/").below? ⟨"."⟩ = some ⟨"a//b"⟩ := by decide
example : (Path.mk "..json").extension? = some (OsText.ofString "json") := by decide
example : (Path.mk ".json").extension? = none := by decide
example : le ⟨"a/x"⟩ ⟨"a-b/x"⟩ ∧ le ⟨"a/x"⟩ ⟨"a.json"⟩ := by decide

end Path

end OnchainSchema
