import OnchainSchema.Keccak
import OnchainSchema.Text.Hex
import OnchainSchema.Text.Utf8

/-! Registries, addresses, and the identifier that a registry gives a schema. -/
namespace OnchainSchema

abbrev Address := Vector UInt8 20

abbrev Hash := Keccak.Hash

def Address.zero : Address := Vector.replicate 20 0

namespace Hex

/-- Bytes as `0x` and hexadecimal digits. -/
def prefixed (bytes : List UInt8) : String := String.ofList ('0' :: 'x' :: encode bytes)

end Hex

def addressText (a : Address) : String := Hex.prefixed a.toList

def hashText (h : Hash) : String := Hex.prefixed h.toList

/-- Reads `0x` and 40 hexadecimal digits. -/
def Address.ofText? (s : String) : Option Address :=
  match s.toList with
  | '0' :: 'x' :: cs =>
    match Hex.decode? cs with
    | some bytes => if h : bytes.toArray.size = 20 then some ⟨bytes.toArray, h⟩ else none
    | none => none
  | _ => none

/-- A registry. Both keep a revocable flag; only one commits to it. -/
inductive Registry where
  /-- Identifies a schema by its text, resolver and flag. -/
  | eas
  /-- Identifies a schema by its text. -/
  | schemaOnly
  deriving DecidableEq, Repr

namespace Registry

def ofText? (s : String) : Option Registry :=
  if s = "eas" then some .eas else if s = "schema-only" then some .schemaOnly else none

def usesResolver : Registry → Bool
  | .eas => true
  | .schemaOnly => false

end Registry

namespace Uid

/-- Schema, resolver and flag without padding or lengths. -/
def pack (schema : String) (resolver : Address) (revocable : Bool) : List UInt8 :=
  Text.bytes schema ++ resolver.toList ++ [if revocable then 1 else 0]

/-- The bytes that a registry hashes. -/
def preimage (r : Registry) (schema : String) (resolver : Address) (revocable : Bool) :
    List UInt8 :=
  match r with
  | .eas => pack schema resolver revocable
  | .schemaOnly => Text.bytes schema

def derive (r : Registry) (schema : String) (resolver : Address) (revocable : Bool) : Hash :=
  Keccak.hash (preimage r schema resolver revocable)

/-- Puts `0x` before a text that lacks it; empty text stays empty. -/
def format (uid : String) : String :=
  match uid.toList with
  | [] | '0' :: 'x' :: _ => uid
  | cs => String.ofList ('0' :: 'x' :: cs)

end Uid

end OnchainSchema
