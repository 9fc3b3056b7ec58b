import OnchainSchema.Json.Writer
import OnchainSchema.Lint.Check

/-! Reports on files and directories, and their JSON form. -/
namespace OnchainSchema.Lint

inductive Status where
  | ok
  | error
  | warning
  deriving DecidableEq, Repr

/-- The findings in a file that is checked as part of some path. -/
structure FileReport where
  file : Path
  /-- The file's path as it is shown. -/
  shown : Path
  findings : List Located
  deriving DecidableEq, Repr

structure Report where
  path : Path
  /-- Warnings count as failures. -/
  strict : Bool
  files : List FileReport
  deriving DecidableEq, Repr

namespace FileReport

def count (r : FileReport) (s : Severity) : Nat := r.findings.countP (·.finding.severity = s)

def status (r : FileReport) : Status :=
  if 0 < r.count .error then .error else if 0 < r.count .warning then .warning else .ok

def fails (r : FileReport) (strict : Bool) : Bool :=
  if strict then r.status ≠ .ok else r.status = .error

end FileReport

namespace Report

def checked (r : Report) : Nat := r.files.length

def failed (r : Report) : Nat := r.files.countP (·.fails r.strict)

def passed (r : Report) : Nat := r.checked - r.failed

/-- How many findings of a severity the files have together. -/
def total (r : Report) (s : Severity) : Nat := r.files.foldr (fun f n => f.count s + n) 0

def errors (r : Report) : Nat := r.total .error

def warnings (r : Report) : Nat := r.total .warning

/-- No file has an error, whether strict or not. -/
def isOk (r : Report) : Bool := r.errors = 0

/-- The verdict: no errors, and no warnings if they count. -/
def accepts (r : Report) : Bool := r.isOk && (!r.strict || r.warnings = 0)

end Report

def isJsonFile (p : Path) : Bool := p.extension? = some (OsText.ofString "json")

mutual
/-- The JSON files at an entry and below it. What cannot be seen to be a directory counts as a file,
and a directory that cannot be listed is passed over. -/
def filesAt (t : FileTree) (path : Path) : Entry → List Path
  | .dir entries access =>
    if t.isDir path then (if access.list then filesIn t path entries else [])
    else if isJsonFile path then [path] else []
  | .file _ _ => if isJsonFile path then [path] else []
def filesIn (t : FileTree) (dir : Path) : List (OsText × Entry) → List Path
  | [] => []
  | (name, e) :: rest => filesAt t (dir.join name) e ++ filesIn t dir rest
end

/-- The files that a path stands for: itself, or the JSON files below it in the order of paths. -/
def filesOf (t : FileTree) (path : Path) : List Path :=
  match t.entry? path with
  | some e => (filesAt t path e).mergeSort Path.le
  | none => []

def lintFile (t : FileTree) (file base : Path) : FileReport :=
  ⟨file, (file.below? base).getD file, checkFile t file⟩

def lint (t : FileTree) (path : Path) (strict : Bool) : Report :=
  ⟨path, strict, (filesOf t path).map (lintFile t · path)⟩

def Severity.text : Severity → String
  | .error => "error"
  | .warning => "warning"

def Status.text : Status → String
  | .ok => "ok"
  | .error => "error"
  | .warning => "warning"

def Located.toJson (file : Path) (l : Located) : Json :=
  .obj [("severity", .str l.finding.severity.text), ("code", .str l.finding.code),
    ("file", .str file.text), ("path", .str l.path), ("message", .str l.finding.message)]

/-- A file without findings has no list of them. -/
def FileReport.toJson (r : FileReport) : Json :=
  .obj ([("file", .str r.shown.text), ("status", .str r.status.text)] ++
    if r.findings = [] then []
    else [("diagnostics", .arr (r.findings.map (Located.toJson r.file)))])

def Report.toJson (r : Report) : Json :=
  let count (n : Nat) : Json := .num (.int n)
  .obj [("path", .str r.path.text), ("files_checked", count r.checked),
    ("passed", count r.passed), ("failed", count r.failed), ("errors", count r.errors),
    ("warnings", count r.warnings), ("results", .arr (r.files.map FileReport.toJson))]

/-- Why a report has no JSON form. -/
inductive WriteFault where
  | notText
  deriving DecidableEq, Repr

def WriteFault.message : WriteFault → String
  | .notText => "path contains invalid UTF-8 characters"

/-- The paths that a report names. -/
def Report.paths (r : Report) : List Path :=
  r.path :: r.files.flatMap fun f => f.shown :: f.findings.map fun _ => f.file

def Report.isText (r : Report) : Bool := r.paths.all (·.raw.isText)

/-- The JSON text of a report, whose paths must be text for it. -/
def Report.write (r : Report) : Except WriteFault String :=
  if r.isText then .ok (Json.pretty r.toJson) else .error .notText

end OnchainSchema.Lint
