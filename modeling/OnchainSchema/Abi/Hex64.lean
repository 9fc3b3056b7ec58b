import OnchainSchema.Text.Pieces

/-! Patterns that describe 64 hexadecimal digits. -/
namespace OnchainSchema

namespace Text

def hasInfix (sub : List Char) : List Char → Bool
  | [] => sub.isEmpty
  | c :: cs => sub.isPrefixOf (c :: cs) || hasInfix sub cs

theorem hasInfix_iff {sub cs : List Char} : hasInfix sub cs ↔ sub <:+: cs := by
  induction cs with
  | nil => simp [hasInfix]
  | cons c cs ih => simp [hasInfix, ih, List.infix_cons_iff]

end Text

namespace Hex64

/-- What follows the class of a pattern for 64 characters. -/
def repetition : List Char := "]\x7b64\x7d".toList

/-- The class names the digits and the letters of one case. -/
def isHexClass (cls : List Char) : Bool :=
  (Text.hasInfix "0-9".toList cls || Text.hasInfix "\\d".toList cls) &&
    (Text.hasInfix "a-f".toList cls || Text.hasInfix "A-F".toList cls)

/-- The class open after `seen`, the characters before, nearest first. -/
def openClass? (seen : List Char) : Option (List Char) :=
  if seen.contains '[' then some (seen.takeWhile (· != '[')).reverse else none

def occursAfter (seen : List Char) : List Char → Bool
  | [] => false
  | c :: cs =>
    (repetition.isPrefixOf (c :: cs) && ((openClass? seen).map isHexClass).getD false) ||
      occursAfter (c :: seen) cs

/-- Some class of hexadecimal digits in the pattern is repeated 64 times; the rest of the pattern
does not count. -/
def occurs (pattern : String) : Bool := occursAfter [] pattern.toList

end Hex64

end OnchainSchema
