import OnchainSchema.Json.Grammar
import OnchainSchema.Json.Writer

/-! The record of a compiled schema that a registry deployment reads, and its JSON text. -/
namespace OnchainSchema

structure Record where
  name : String
  schema : String
  revocable : Bool
  resolver : Option String
  deriving DecidableEq, Repr

namespace Record

/-- A missing resolver has no member. -/
def toJson (r : Record) : Json :=
  .obj ([("name", .str r.name), ("schema", .str r.schema), ("revocable", .bool r.revocable)] ++
    (r.resolver.map fun a => ("resolver", .str a)).toList)

def write (l : Json.Layout) (r : Record) : String := l.write r.toJson

/-- The members of a record as far as they have been read. -/
structure Draft where
  name : Option String := none
  schema : Option String := none
  revocable : Option Bool := none
  resolver : Option (Option String) := none

def text? : Json.Raw → Option String
  | .string gs => (Json.decodeGlyphs gs).map String.ofList
  | _ => none

def flag? : Json.Raw → Option Bool
  | .bool b => some b
  | _ => none

/-- A null resolver is no resolver. -/
def resolver? : Json.Raw → Option (Option String)
  | .null => some none
  | e => (text? e).map some

/-- Reads one more member. Each known member comes at most once; the values of others are not
looked into. -/
def Draft.add (d : Draft) (key : String) (e : Json.Raw) : Option Draft :=
  if key = "name" then
    if d.name.isSome then none else (text? e).map fun v => { d with name := some v }
  else if key = "schema" then
    if d.schema.isSome then none else (text? e).map fun v => { d with schema := some v }
  else if key = "revocable" then
    if d.revocable.isSome then none else (flag? e).map fun v => { d with revocable := some v }
  else if key = "resolver" then
    if d.resolver.isSome then none else (resolver? e).map fun v => { d with resolver := some v }
  else some d

def Draft.addAll (d : Draft) : List (List Json.Glyph × Json.Raw) → Option Draft
  | [] => some d
  | (k, e) :: ms =>
    match Json.decodeGlyphs k with
    | none => none
    | some key => (d.add (String.ofList key) e).bind (addAll · ms)

/-- A record needs all its members but the resolver. -/
def Draft.finish (d : Draft) : Option Record :=
  match d.name, d.schema, d.revocable with
  | some name, some schema, some revocable => some ⟨name, schema, revocable, d.resolver.join⟩
  | _, _, _ => none

/-- A record as the list of its values, all four of them in the order of its members. -/
def ofValues? : List Json.Raw → Option Record
  | [name, schema, revocable, resolver] => do
    return ⟨← text? name, ← text? schema, ← flag? revocable, ← resolver? resolver⟩
  | _ => none

/-- Reads a record from its members or from its values alone. -/
def read? (s : String) : Option Record :=
  match Json.Grammar.document? s with
  | some (.object ms) => (Draft.addAll {} ms).bind Draft.finish
  | some (.array es) => ofValues? es
  | _ => none

end Record

end OnchainSchema
