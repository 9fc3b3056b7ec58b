import OnchainSchema.Compile

/-! The arguments of the command line and the commands they spell. -/
namespace OnchainSchema

structure CompileCommand where
  file : Path
  registry : Registry
  name : Option String
  revocable : Option Bool
  resolver : Option String
  output : Option Path
  pretty : Bool
  printUid : Bool
  deriving DecidableEq, Repr

structure UidCommand where
  schema : String
  registry : Registry
  resolver : Option String
  revocable : Bool
  deriving DecidableEq, Repr

structure LintCommand where
  path : Path
  /-- Any other format than `json` is text. -/
  format : String
  strict : Bool
  quiet : Bool
  deriving DecidableEq, Repr

inductive Command where
  | compile (c : CompileCommand)
  | uid (c : UidCommand)
  | didIndex (did : String) (json : Bool)
  | lint (c : LintCommand)
  | version
  deriving DecidableEq, Repr

namespace Command

/-- The options of a command: flags, options with a value, and flags of one letter. -/
structure Spec where
  flags : List String
  valued : List String
  letters : List (Char × String) := []

structure Given where
  flags : List String := []
  values : List (String × String) := []
  operands : List String := []
  deriving DecidableEq, Repr

namespace Given

/-- A flag may be given once. -/
def addFlag (g : Given) (name : String) : Option Given :=
  if name ∈ g.flags then none else some { g with flags := g.flags ++ [name] }

/-- An option may be given once. -/
def addValue (g : Given) (name value : String) : Option Given :=
  if Members.hasKey name g.values then none
  else some { g with values := g.values ++ [(name, value)] }

def value? (g : Given) (name : String) : Option String := Members.get? name g.values

def addLetters (spec : Spec) (g : Given) : List Char → Option Given
  | [] => some g
  | c :: cs =>
    match spec.letters.find? (·.1 = c) with
    | some (_, name) => (g.addFlag name).bind (addLetters spec · cs)
    | none => none

end Given

/-- An argument that cannot be the value of an option before it; a lone hyphen can. -/
def isOptionLike (arg : String) : Bool := Text.startsWith "-" arg && arg != "-"

/-- What an argument is by itself. -/
inductive Argument where
  | endOfOptions
  | long (name : String) (value : Option String)
  | letters (cs : List Char)
  | operand
  deriving DecidableEq, Repr

def Argument.ofText (arg : String) : Argument :=
  if arg = "--" then .endOfOptions
  else if Text.startsWith "--" arg then
    let (name, rest) := Text.cutBefore '=' (String.ofList (arg.toList.drop 2))
    .long name (match rest.toList with
      | [] => none
      | _ :: value => some (String.ofList value))
  else if isOptionLike arg then .letters (arg.toList.drop 1)
  else .operand

/-- Sorts arguments into flags, values and operands. After `--` all are operands. -/
def scan (spec : Spec) (g : Given) : List String → Option Given
  | [] => some g
  | arg :: args =>
    match Argument.ofText arg with
    | .endOfOptions => some { g with operands := g.operands ++ args }
    | .long name (some value) =>
      if name ∈ spec.valued then (g.addValue name value).bind (scan spec · args) else none
    | .long name none =>
      if name ∈ spec.flags then (g.addFlag name).bind (scan spec · args)
      else if name ∈ spec.valued then
        match args with
        | value :: args =>
          if isOptionLike value then none else (g.addValue name value).bind (scan spec · args)
        | [] => none
      else none
    | .letters cs => (g.addLetters spec cs).bind (scan spec · args)
    | .operand => scan spec { g with operands := g.operands ++ [arg] } args

def path? (s : String) : Option Path := if s = "" then none else some ⟨s⟩

def flag? (s : String) : Option Bool :=
  if s = "true" then some true else if s = "false" then some false else none

/-- The option read by `read`, or `default` if it is not given; `none` if it cannot be read. -/
def Given.readOr {α : Type} (g : Given) (name : String) (read : String → Option α) (default : α) :
    Option α :=
  match g.value? name with
  | some value => read value
  | none => some default

def compileSpec : Spec where
  flags := ["pretty", "print-uid"]
  valued := ["registry", "name", "revocable", "resolver", "output"]

def compileOf (g : Given) : Option Command := do
  let [file] := g.operands | none
  let file ← path? file
  let registry ← g.readOr "registry" Registry.ofText? .eas
  let revocable ← g.readOr "revocable" (fun v => (flag? v).map some) none
  let output ← g.readOr "output" (fun v => (path? v).map some) none
  return .compile ⟨file, registry, g.value? "name", revocable, g.value? "resolver", output,
    g.flags.contains "pretty", g.flags.contains "print-uid"⟩

def uidSpec : Spec where
  flags := []
  valued := ["schema", "registry", "resolver", "revocable"]

def uidOf (g : Given) : Option Command := do
  let [] := g.operands | none
  let schema ← g.value? "schema"
  let registry ← g.readOr "registry" Registry.ofText? .eas
  let revocable ← g.readOr "revocable" flag? false
  return .uid ⟨schema, registry, g.value? "resolver", revocable⟩

def didIndexSpec : Spec where
  flags := ["json"]
  valued := []

def didIndexOf (g : Given) : Option Command := do
  let [did] := g.operands | none
  return .didIndex did (g.flags.contains "json")

def lintSpec : Spec where
  flags := ["strict", "quiet"]
  valued := ["format"]
  letters := [('q', "quiet")]

def lintOf (g : Given) : Option Command := do
  let [path] := g.operands | none
  let path ← path? path
  return .lint ⟨path, (g.value? "format").getD "text", g.flags.contains "strict",
    g.flags.contains "quiet"⟩

/-- The command that the arguments spell; `none` is an error of use. -/
def parse? : List String → Option Command
  | [] => none
  | name :: args =>
    if name = "compile" then (scan compileSpec {} args).bind compileOf
    else if name = "uid" then (scan uidSpec {} args).bind uidOf
    else if name = "did-index" then (scan didIndexSpec {} args).bind didIndexOf
    else if name = "lint" then (scan lintSpec {} args).bind lintOf
    else if name = "--version" ∨ Text.startsWith "-V" name then some .version
    else none

end Command

end OnchainSchema
