import OnchainSchema.Json.Basic

/-! The annotations of a property: why it is skipped, and which ABI type it asks for. -/
namespace OnchainSchema

def skipReasonKey : String := "x-oma3-skip-reason"

def abiOverrideKey : String := "x-oma3-abi"

inductive SkipReason where
  /-- Kept off chain. -/
  | metadata
  /-- Handled by the attestation service itself. -/
  | eas
  /-- A slot that stays so that the layout does not move. -/
  | unused
  | other (tag : String)
  deriving DecidableEq, Repr

namespace SkipReason

def parse (s : String) : SkipReason :=
  if s = "metadata" then .metadata
  else if s = "eas" then .eas
  else if s = "unused" then .unused
  else .other s

/-- A field with this reason is left out. -/
def excludes : SkipReason → Bool
  | .metadata | .eas => true
  | _ => false

def text : SkipReason → String
  | .metadata => "metadata"
  | .eas => "eas"
  | .unused => "unused"
  | .other tag => tag

@[simp] theorem text_parse (s : String) : (parse s).text = s := by
  grind [parse, text]

/-- The reason a property gives, if it gives a string. -/
def of? (property : Json) : Option SkipReason := (property.textAt? skipReasonKey).map parse

end SkipReason

inductive AbiOverride where
  | bytes32
  /-- Not a type that can be asked for; it counts for nothing. -/
  | other (name : String)
  deriving DecidableEq, Repr

namespace AbiOverride

def parse (s : String) : AbiOverride := if s = "bytes32" then .bytes32 else .other s

def of? (property : Json) : Option AbiOverride := (property.textAt? abiOverrideKey).map parse

end AbiOverride

end OnchainSchema
