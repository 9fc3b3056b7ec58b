import OnchainSchema.Command.Arguments
import OnchainSchema.Did
import OnchainSchema.Lint.Report

/-! What a command answers on a tree of files. -/
namespace OnchainSchema.Command

structure Answer where
  exit : Nat
  stdout : String
  stderr : String
  /-- The files afterwards. -/
  tree : FileTree

def succeed (t : FileTree) (stdout : String) : Answer := ⟨0, stdout, "", t⟩

def fail (t : FileTree) (exit : Nat) (problem : String) : Answer :=
  ⟨exit, "", "Error" ++ problem ++ "\n", t⟩

def parseResolver? : Option String → Except CompileError (Option Address)
  | some value => (parseResolver value).map some
  | none => .ok none

def runCompile (t : FileTree) (c : CompileCommand) : Answer :=
  match parseResolver? c.resolver with
  | .error error => fail t error.exitCode (": " ++ error.message)
  | .ok resolver =>
    match ((compileFile c.file ⟨c.registry, c.name, c.revocable, resolver⟩).run
      t.source Cache.empty).value with
    | .error error => fail t error.exitCode (": " ++ c.file.text ++ ": " ++ error.message)
    | .ok compilation =>
      let text := compilation.record.write (if c.pretty then .pretty else .compact)
      let uid := if c.printUid then compilation.uid ++ "\n" else ""
      match c.output with
      | none => succeed t (text ++ "\n" ++ uid)
      | some path =>
        match t.write path text with
        | .ok t => succeed t uid
        | .error fault => fail t 3 (" writing to " ++ path.text ++ ": " ++ fault.message)

def runUid (t : FileTree) (c : UidCommand) : Answer :=
  match parseResolver? c.resolver with
  | .error error => fail t error.exitCode (": " ++ error.message)
  | .ok resolver =>
    succeed t (hashText (Uid.derive c.registry c.schema (resolver.getD Address.zero) c.revocable)
      ++ "\n")

def runDidIndex (t : FileTree) (did : String) (json : Bool) : Answer :=
  match Did.hash did, Did.indexAddress did with
  | .ok hash, .ok address =>
    if json then
      succeed t (Json.compact (.obj [("did", .str did), ("didHash", .str (hashText hash)),
        ("indexAddress", .str (addressText address))]) ++ "\n")
    else succeed t (addressText address ++ "\n")
  | .error fault, _ | _, .error fault => fail t 2 (": " ++ fault.message)

/-- Colours of the text report. -/
def red : String := "\x1b[31m"
def green : String := "\x1b[32m"
def yellow : String := "\x1b[33m"
def plain : String := "\x1b[0m"

def icon : Lint.Status → String
  | .ok => green ++ "✓" ++ plain
  | .warning => yellow ++ "⚠" ++ plain
  | .error => red ++ "✗" ++ plain

def colour : Lint.Severity → String
  | .error => red
  | .warning => yellow

def findingLine (l : Lint.Located) : String :=
  "    " ++ colour l.finding.severity ++ l.finding.severity.text ++ "[" ++ l.finding.code ++ "]" ++
    plain ++ ": " ++ l.path ++ " - " ++ l.finding.message ++ "\n"

/-- Quiet reports name only files with findings and show only errors. -/
def fileLines (quiet : Bool) (r : Lint.FileReport) : String :=
  (if quiet ∧ r.status = .ok then ""
    else "  " ++ icon r.status ++ " " ++ r.shown.text ++ "\n") ++
    String.join ((r.findings.filter fun l => !quiet || l.finding.severity = .error).map findingLine)

def summaryLine (r : Lint.Report) : String :=
  if r.accepts then
    green ++ "✓ " ++ toString r.checked ++ " files checked, all passed" ++ plain ++ "\n"
  else
    red ++ "✗ " ++ toString r.checked ++ " files checked: " ++ toString r.passed ++ " passed, " ++
      toString r.failed ++ " failed (" ++ toString r.errors ++ " errors, " ++
      toString r.warnings ++ " warnings)" ++ plain ++ "\n"

def reportText (quiet : Bool) (r : Lint.Report) : String :=
  (if quiet then "" else "Linting " ++ r.path.text ++ " ...\n\n") ++
    String.join (r.files.map (fileLines quiet)) ++ "\n" ++ summaryLine r

/-- What is printed of a report. -/
def printReport (c : LintCommand) (r : Lint.Report) : Except Lint.WriteFault String :=
  if c.format = "json" then r.write.map (· ++ "\n") else .ok (reportText c.quiet r)

def runLint (t : FileTree) (c : LintCommand) : Answer :=
  if t.has c.path then
    let r := Lint.lint t c.path c.strict
    match printReport c r with
    | .ok text => ⟨if r.accepts then 0 else 1, text, "", t⟩
    | .error fault => fail t 2 (" serializing output: " ++ fault.message)
  else fail t 2 (": path not found: " ++ c.path.text)

def versionLine : String := "attestation-schema 0.1.0\n"

def run (t : FileTree) : Command → Answer
  | .compile c => runCompile t c
  | .uid c => runUid t c
  | .didIndex did json => runDidIndex t did json
  | .lint c => runLint t c
  | .version => succeed t versionLine

end OnchainSchema.Command
