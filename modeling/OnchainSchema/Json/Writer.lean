import OnchainSchema.Json.Basic

/-! JSON text of a value, on one line or indented by two blanks a level. -/
namespace OnchainSchema.Json

inductive Layout where
  | compact
  | pretty
  deriving DecidableEq, Repr

def hexDigit (n : Nat) : Char :=
  if n < 10 then Char.ofNat ('0'.toNat + n) else Char.ofNat ('a'.toNat + (n - 10))

/-- Quotes, backslashes and control characters are escaped; all else stands for itself. -/
def escape (c : Char) : List Char :=
  if c = '"' then ['\\', '"']
  else if c = '\\' then ['\\', '\\']
  else if c = '\x08' then ['\\', 'b']
  else if c = '\x0C' then ['\\', 'f']
  else if c = '\n' then ['\\', 'n']
  else if c = '\r' then ['\\', 'r']
  else if c = '\t' then ['\\', 't']
  else if c.toNat < 0x20 then
    ['\\', 'u', '0', '0', hexDigit (c.toNat / 16), hexDigit (c.toNat % 16)]
  else [c]

def quoteChars (cs : List Char) : List Char := '"' :: cs.flatMap escape ++ ['"']

/-- The decimal expansion of a finite double, which is exact. -/
def doubleText (bits : UInt64) : String :=
  let sign := if bits >>> 63 = 1 then "-" else ""
  let e := ((bits >>> 52) &&& 0x7FF).toNat
  let f := (bits &&& 0xFFFFFFFFFFFFF).toNat
  let m := if e = 0 then f else f + 0x10000000000000
  let q : Int := max e 1 - 1075
  if 0 ≤ q then sign ++ toString (m <<< q.toNat) ++ ".0"
  else
    let places := (-q).toNat
    let scaled := m * Nat.pow 5 places
    let rest := toString (scaled % Nat.pow 10 places)
    sign ++ toString (scaled / Nat.pow 10 places) ++ "." ++
      String.ofList (List.replicate (places - rest.length) '0') ++ rest

def numberText : Number → String
  | .int n => toString n
  | .double bits => doubleText bits

namespace Layout

/-- What separates the items at a level from each other and from the brackets. -/
def gap (l : Layout) (level : Nat) : List Char :=
  match l with
  | .compact => []
  | .pretty => '\n' :: List.replicate (2 * level) ' '

def colon : Layout → List Char
  | .compact => [':']
  | .pretty => [':', ' ']

mutual
def chars (l : Layout) (level : Nat) : Json → List Char
  | .null => "null".toList
  | .bool true => "true".toList
  | .bool false => "false".toList
  | .num n => (numberText n).toList
  | .str s => quoteChars s.toList
  | .arr [] => ['[', ']']
  | .arr (e :: es) =>
    '[' :: l.gap (level + 1) ++ chars l (level + 1) e ++ elemsTail l level es
  | .obj [] => ['\x7b', '\x7d']
  | .obj ((k, v) :: ms) =>
    '\x7b' :: l.gap (level + 1) ++ quoteChars k.toList ++ l.colon ++ chars l (level + 1) v ++
      membersTail l level ms
def elemsTail (l : Layout) (level : Nat) : List Json → List Char
  | [] => l.gap level ++ [']']
  | e :: es => ',' :: l.gap (level + 1) ++ chars l (level + 1) e ++ elemsTail l level es
def membersTail (l : Layout) (level : Nat) : List (String × Json) → List Char
  | [] => l.gap level ++ ['\x7d']
  | (k, v) :: ms =>
    ',' :: l.gap (level + 1) ++ quoteChars k.toList ++ l.colon ++ chars l (level + 1) v ++
      membersTail l level ms
end

def write (l : Layout) (j : Json) : String := String.ofList (chars l 0 j)

end Layout

def compact (j : Json) : String := Layout.compact.write j

def pretty (j : Json) : String := Layout.pretty.write j

example : compact (.obj [("a\n", .arr [.num (.int (-1)), .null]), ("b", .obj [])]) =
    "\x7b\"a\\n\":[-1,null],\"b\":\x7b\x7d\x7d" := by decide

example : pretty (.arr [.str "\x01", .arr []]) = "[\n  \"\\u0001\",\n  []\n]" := by decide

end OnchainSchema.Json
