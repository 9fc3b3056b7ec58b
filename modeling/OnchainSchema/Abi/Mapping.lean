import OnchainSchema.Abi.Basic
import OnchainSchema.Abi.Hex64
import OnchainSchema.Annotation
import OnchainSchema.Text.Lower

/-! The ABI type of a field, from the effective types of its schema and of its items. -/
namespace OnchainSchema

/-- What the mapping reads of a schema. -/
structure Facets where
  type : Option String := none
  pattern : Option String := none
  override : Option AbiOverride := none
  deriving DecidableEq, Repr

/-- Why a field has no ABI type. -/
inductive DropCause where
  | noItemType
  | nestedArray
  deriving DecidableEq, Repr

namespace Abi

/-- The field that is a string whatever its schema says. -/
def pinnedField : String := "purpose"

/-- Objects, unknown types and a missing type are strings. -/
def scalarOf (type pattern : Option String) : Scalar :=
  match type with
  | none => .string
  | some t =>
    let t := Text.asciiLower t
    if t = "string" then (if (pattern.map Hex64.occurs).getD false then .bytes32 else .string)
    else if t = "integer" ∨ t = "number" then .uint256
    else if t = "boolean" then .bool
    else .string

def isArrayType (type : Option String) : Bool := (type.map (Text.sameLetters "array")).getD false

/-- An array of the type of its items, which may not be arrays. -/
def arrayOf (items : Option Facets) : Except DropCause AbiType :=
  match items with
  | none => .error .noItemType
  | some item =>
    if item.type = none then .error .noItemType
    else if isArrayType item.type then .error .nestedArray
    else if item.override = some .bytes32 then .ok ⟨.bytes32, true⟩
    else .ok ⟨scalarOf item.type item.pattern, true⟩

/-- An override goes before the pinned name and that before the type. -/
def mapField (name : String) (own : Facets) (items : Option Facets) : Except DropCause AbiType :=
  if own.override = some .bytes32 then .ok ⟨.bytes32, false⟩
  else if name = pinnedField then .ok ⟨.string, false⟩
  else if isArrayType own.type then arrayOf items
  else .ok ⟨scalarOf own.type own.pattern, false⟩

end Abi

end OnchainSchema
