import OnchainSchema.Text.Pieces

/-! What a reference points at: a node of the document it stands in, or of another file. -/
namespace OnchainSchema.Ref

inductive Target where
  | inside (pointer : String)
  /-- The fragment keeps its number sign. -/
  | outside (file fragment : String)
  deriving DecidableEq, Repr

/-- A reference leads outside if something stands before its first number sign. -/
def Target.ofText (ref : String) : Target :=
  let (file, fragment) := Text.cutBefore '#' ref
  if file = "" ∨ fragment = "" then .inside ref else .outside file fragment

/-- Why a reference has no target. -/
inductive Fault where
  | unsupportedFormat (ref : String)
  | unloadable (file : String)
  | targetNotFound (pointer : String)
  deriving DecidableEq, Repr

def Fault.message : Fault → String
  | .unsupportedFormat ref => "unsupported $ref format: " ++ ref
  | .unloadable file => "cannot load referenced schema file: " ++ file
  | .targetNotFound pointer => "pointer target not found: " ++ pointer

end OnchainSchema.Ref
