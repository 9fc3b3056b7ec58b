import OnchainSchema.Abi.SchemaText
import OnchainSchema.Property
import OnchainSchema.Ref.Resolve

/-! The on-chain layout of a set of properties: one decision each, and the fields that are kept. -/
namespace OnchainSchema

inductive FieldOutcome where
  | included (type : AbiType)
  /-- Kept as a slot although unused. -/
  | reserved (type : AbiType)
  | skipped (reason : SkipReason)
  | dropped
  deriving DecidableEq, Repr

structure Decision where
  field : String
  outcome : FieldOutcome
  deriving DecidableEq, Repr

structure Build where
  decisions : List Decision
  deriving DecidableEq, Repr

def FieldOutcome.type? : FieldOutcome → Option AbiType
  | .included t | .reserved t => some t
  | _ => none

def Decision.field? (d : Decision) : Option Field := d.outcome.type?.map (⟨·, d.field⟩)

namespace Build

/-- The fields of the layout, in the order of the properties. -/
def fields (b : Build) : List Field := b.decisions.filterMap Decision.field?

def schema (b : Build) : String := SchemaText.join b.fields

def outcome? (b : Build) (field : String) : Option FieldOutcome :=
  (b.decisions.find? (·.field = field)).map Decision.outcome

/-- What is read of an array's items, after their own reference is resolved. -/
def itemFacets (site : Site) (items : Json) : Fetch Facets := do
  return (Property.ofJson (← Ref.expand site items)).facets

/-- Only arrays have their items looked at. -/
def itemsOf (site : Site) (p : Property) : Fetch (Option Facets) :=
  match p.effectiveType?, p.items with
  | some "array", some items => do return some (← itemFacets site items)
  | _, _ => return none

theorem itemsOf_eq (site : Site) (p : Property) :
    itemsOf site p =
      if p.effectiveType? = some "array" then
        match p.items with
        | some items => do return some (← itemFacets site items)
        | none => return none
      else return none := by
  unfold itemsOf
  split
  next items htype hitems => rw [if_pos htype, hitems]
  next hno =>
    split
    next htype =>
      cases hitems : p.items with
      | none => rfl
      | some items => exact absurd hitems (hno items htype)
    next => rfl

/-- The ABI type of a field that is kept. -/
def typeOf (site : Site) (name : String) (p : Property) : Fetch (Option AbiType) := do
  match Abi.mapField name p.facets (← itemsOf site p) with
  | .ok type => return some type
  | .error cause =>
    Fetch.log (.fieldDropped name cause)
    return none

/-- A field that its skip reason excludes is skipped before its type is looked at. -/
def decide (site : Site) (name : String) (property : Json) : Fetch FieldOutcome := do
  let p := Property.ofJson (← Ref.expand site property)
  match p.skipReason with
  | some .unused =>
    Fetch.log (.slotReserved name)
    return ((← typeOf site name p).map .reserved).getD .dropped
  | some reason =>
    if reason.excludes then
      Fetch.log (.fieldSkipped name reason)
      return .skipped reason
    else return ((← typeOf site name p).map .included).getD .dropped
  | none => return ((← typeOf site name p).map .included).getD .dropped

def decisionsOf (site : Site) : Members → Fetch (List Decision)
  | [] => return []
  | (name, property) :: rest => do
    let outcome ← decide site name property
    let decisions ← decisionsOf site rest
    return ⟨name, outcome⟩ :: decisions

/-- Builds the layout of `properties`; this never fails. -/
def ofProperties (site : Site) (properties : Members) : Fetch Build := do
  return ⟨← decisionsOf site properties⟩

end Build

end OnchainSchema
