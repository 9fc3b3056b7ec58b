import OnchainSchema.Command.Arguments

/-!
Commands as they are spelled. Options that are written as `--name value` are read as they are
written, and so is the whole of a command that derives an identifier.
-/
namespace OnchainSchema

namespace Registry

def text : Registry → String
  | .eas => "eas"
  | .schemaOnly => "schema-only"

@[simp] theorem ofText?_text (r : Registry) : ofText? r.text = some r := by cases r <;> decide

end Registry

namespace Command

/-- Options in the order in which they are given, each in two arguments. -/
def spell (options : List (String × String)) : List String :=
  options.flatMap fun o => ["--" ++ o.1, o.2]

/-- The names of options with values are no flags, and none of them is empty or holds a `=`. -/
def Spec.WellNamed (spec : Spec) : Prop :=
  ∀ name ∈ spec.valued, name ≠ "" ∧ '=' ∉ name.toList ∧ name ∉ spec.flags

end Command

open Command

namespace UidCommand

def options (c : UidCommand) : List (String × String) :=
  [("registry", c.registry.text), ("schema", c.schema)] ++
    (c.resolver.map fun value => ("resolver", value)).toList ++
    [("revocable", if c.revocable then "true" else "false")]

variable {c : UidCommand}

end UidCommand

end OnchainSchema
