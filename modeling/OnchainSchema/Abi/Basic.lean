import OnchainSchema.Text.Pieces

/-! ABI types of fields: four scalars and their arrays. -/
namespace OnchainSchema

inductive Scalar where
  | string
  | uint256
  | bool
  | bytes32
  deriving DecidableEq, Repr

structure AbiType where
  scalar : Scalar
  isArray : Bool
  deriving DecidableEq, Repr

/-- A field of an on-chain schema. -/
structure Field where
  type : AbiType
  name : String
  deriving DecidableEq, Repr

namespace Scalar

def text : Scalar → String
  | .string => "string"
  | .uint256 => "uint256"
  | .bool => "bool"
  | .bytes32 => "bytes32"

def ofText? (s : String) : Option Scalar :=
  if s = "string" then some .string
  else if s = "uint256" then some .uint256
  else if s = "bool" then some .bool
  else if s = "bytes32" then some .bytes32
  else none

@[simp] theorem ofText?_text (s : Scalar) : ofText? s.text = some s := by cases s <;> decide

theorem ofText?_eq_some_iff {t : String} {s : Scalar} : ofText? t = some s ↔ t = s.text := by
  constructor
  · unfold ofText?
    intro h
    split at h
    · simp_all [text, ← Option.some.inj h]
    split at h
    · simp_all [text, ← Option.some.inj h]
    split at h
    · simp_all [text, ← Option.some.inj h]
    split at h
    · simp_all [text, ← Option.some.inj h]
    · simp at h
  · rintro rfl
    exact ofText?_text s

end Scalar

namespace AbiType

def text (t : AbiType) : String := if t.isArray then t.scalar.text ++ "[]" else t.scalar.text

/-- The text without one pair of brackets at its end, if it has one. -/
def stripBrackets (s : String) : Option String :=
  match s.toList.reverse with
  | ']' :: '[' :: cs => some (String.ofList cs.reverse)
  | _ => none

def ofText? (s : String) : Option AbiType :=
  match stripBrackets s with
  | some base => (Scalar.ofText? base).map (⟨·, true⟩)
  | none => (Scalar.ofText? s).map (⟨·, false⟩)

@[simp] theorem ofText?_text (t : AbiType) : ofText? t.text = some t := by
  obtain ⟨s, a⟩ := t
  cases s <;> cases a <;> decide

theorem stripBrackets_eq_some_iff {s base : String} :
    stripBrackets s = some base ↔ s = base ++ "[]" := by
  constructor
  · intro h
    unfold stripBrackets at h
    split at h
    next cs hcs =>
      obtain rfl := Option.some.inj h
      have hs : s.toList = cs.reverse ++ ['[', ']'] := by
        simpa using congrArg List.reverse hcs
      exact String.toList_inj.mp (by simpa using hs)
    next => simp at h
  · rintro rfl
    simp [stripBrackets]

/-- Only the text of a type reads as that type. -/
theorem ofText?_eq_some_iff {s : String} {t : AbiType} : ofText? s = some t ↔ s = t.text := by
  constructor
  · intro h
    unfold ofText? at h
    split at h
    next base hb =>
      obtain ⟨scalar, hs, rfl⟩ := Option.map_eq_some_iff.mp h
      rw [stripBrackets_eq_some_iff.mp hb, Scalar.ofText?_eq_some_iff.mp hs]
      rfl
    next =>
      obtain ⟨scalar, hs, rfl⟩ := Option.map_eq_some_iff.mp h
      exact Scalar.ofText?_eq_some_iff.mp hs
  · rintro rfl
    exact ofText?_text t

end AbiType

def Field.text (f : Field) : String := f.type.text ++ " " ++ f.name

end OnchainSchema
