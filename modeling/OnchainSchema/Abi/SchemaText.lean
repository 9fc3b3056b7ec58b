import OnchainSchema.Abi.Basic
import OnchainSchema.Text.Blank

/-!
Schema text: the fields of an on-chain schema as `type name` pairs between commas, as attestations
are decoded by it.
-/
namespace OnchainSchema.SchemaText

inductive Fault where
  | malformedField (piece : String)
  | unknownType (name : String)
  deriving DecidableEq, Repr

def Fault.message : Fault → String
  | .malformedField piece => "malformed field \"" ++ piece ++ "\": expected \"<type> <name>\""
  | .unknownType name => "unknown ABI type \"" ++ name ++ "\""

def parseType (s : String) : Except Fault AbiType :=
  match AbiType.ofText? s with
  | some t => .ok t
  | none => .error (.unknownType s)

def join (fields : List Field) : String := Text.join ", " (fields.map Field.text)

/-- A piece is a type and a name with blanks around them. -/
def parsePiece (piece : String) : Except Fault Field :=
  match Text.words piece with
  | [type, name] => (parseType type).map (⟨·, name⟩)
  | _ => .error (.malformedField (Text.trim piece))

/-- The fields of the pieces, or the fault of the first piece that has one. -/
def parsePieces : List String → Except Fault (List Field)
  | [] => .ok []
  | piece :: rest =>
    match parsePiece piece, parsePieces rest with
    | .error fault, _ => .error fault
    | .ok _, .error fault => .error fault
    | .ok field, .ok fields => .ok (field :: fields)

/-- Blank text has no fields. -/
def parse (s : String) : Except Fault (List Field) :=
  if Text.isBlankText s then .ok [] else parsePieces (Text.split ',' s)

end OnchainSchema.SchemaText
