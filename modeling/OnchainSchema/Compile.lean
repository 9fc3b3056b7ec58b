import OnchainSchema.Build
import OnchainSchema.Record
import OnchainSchema.Registry

/-! Compiling a document: its name, its layout, its record and its identifier. -/
namespace OnchainSchema

structure Options where
  registry : Registry := .eas
  /-- In place of the title. -/
  name : Option String := none
  revocable : Option Bool := none
  resolver : Option Address := none

inductive CompileError where
  | load (error : LoadError)
  | missingName
  | noProperties
  | invalidResolver (value : String)
  deriving DecidableEq, Repr

structure Compilation where
  record : Record
  uid : String
  build : Build
  deriving DecidableEq, Repr

namespace CompileError

def message : CompileError → String
  | .load error => error.message
  | .missingName => "schema has no title and no name override was supplied"
  | .noProperties =>
    "schema has no properties: this looks like a shared-definitions file, not an attestation schema"
  | .invalidResolver value =>
    "invalid resolver address \"" ++ value ++ "\": expected 0x followed by 40 hex digits"

def exitCode : CompileError → Nat
  | .load error => error.exitCode
  | _ => 2

end CompileError

def parseResolver (value : String) : Except CompileError Address :=
  match Address.ofText? value with
  | some a => .ok a
  | none => .error (.invalidResolver value)

namespace Compile

/-- The words of a title with hyphens between them. -/
def nameOfTitle (title : String) : String := Text.join "-" (Text.words title)

def nameOf (document : Json) (options : Options) : String :=
  options.name.getD (((document.textAt? "title").map nameOfTitle).getD "")

/-- The properties of a document that can be compiled: an object with some members. -/
def propertiesOf? (document : Json) : Option Members :=
  match document.get? "properties" with
  | some (.obj (m :: ms)) => some (m :: ms)
  | _ => none

theorem get?_of_propertiesOf? {document : Json} {ps : Members}
    (h : propertiesOf? document = some ps) :
    document.get? "properties" = some (.obj ps) := by
  unfold propertiesOf? at h
  split at h
  next hproperties =>
    obtain rfl := Option.some.inj h
    exact hproperties
  next => cases h

/-- The attestation service handles revocation itself. -/
def detectsRevocation (b : Build) : Bool := b.outcome? revokedField = some (.skipped .eas)

def revocability (options : Options) (b : Build) : Fetch Bool :=
  match options.revocable with
  | some flag => return flag
  | none => do
    if detectsRevocation b then Fetch.log .revocationDetected
    return detectsRevocation b

/-- The resolver of a registry that takes one: the zero address unless another is given. -/
def resolverOf (options : Options) : Fetch (Option Address) :=
  if options.registry.usesResolver then
    match options.resolver with
    | some a => return some a
    | none => do
      Fetch.log .zeroResolver
      return some Address.zero
  else return none

/-- The record and identifier of a layout. -/
def finish (options : Options) (name : String) (b : Build) : Fetch Compilation := do
  let revocable ← revocability options b
  let resolver ← resolverOf options
  let uid := hashText (Uid.derive options.registry b.schema (resolver.getD Address.zero) revocable)
  Fetch.log (.compiled name b.schema)
  Fetch.log (.uidDerived uid)
  return ⟨⟨name, b.schema, revocable, resolver.map addressText⟩, uid, b⟩

end Compile

/-- Compiles a document. Only a missing name or missing properties stop it, before anything is
looked up. -/
def compile (site : Site) (options : Options) : Fetch (Except CompileError Compilation) :=
  if Text.isBlankText (Compile.nameOf site.document options) then return .error .missingName
  else match Compile.propertiesOf? site.document with
    | none => return .error .noProperties
    | some properties => do
      let b ← Build.ofProperties site properties
      return .ok (← Compile.finish options (Compile.nameOf site.document options) b)

/-- Compiles the document of a file; its references are relative to the file's directory. -/
def compileFile (file : Path) (options : Options) : Fetch (Except CompileError Compilation) := do
  match ← Fetch.loadRoot file with
  | .error error => return .error (.load error)
  | .ok document => compile ⟨document, file.directory⟩ options

end OnchainSchema
