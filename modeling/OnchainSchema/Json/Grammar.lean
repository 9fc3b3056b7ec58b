import OnchainSchema.Json.Raw

/-!
The grammar of JSON text. Every reader takes the text that is left and gives what it read with the
text after it.
-/
namespace OnchainSchema.Json.Grammar

abbrev Reader (α : Type) := List Char → Option (α × List Char)

def isGap (c : Char) : Bool := c == ' ' || c == '\t' || c == '\n' || c == '\r'

def skipGap (cs : List Char) : List Char := cs.dropWhile isGap

def hexValue? (c : Char) : Option Nat :=
  if '0' ≤ c ∧ c ≤ '9' then some (c.toNat - '0'.toNat)
  else if 'a' ≤ c ∧ c ≤ 'f' then some (c.toNat - 'a'.toNat + 10)
  else if 'A' ≤ c ∧ c ≤ 'F' then some (c.toNat - 'A'.toNat + 10)
  else none

def unit? (a b c d : Char) : Option Nat := do
  let a ← hexValue? a
  let b ← hexValue? b
  let c ← hexValue? c
  let d ← hexValue? d
  return ((a * 16 + b) * 16 + c) * 16 + d

/-- The character that a one-letter escape stands for. -/
def escaped? : Char → Option Char
  | '"' => some '"'
  | '\\' => some '\\'
  | '/' => some '/'
  | 'b' => some '\x08'
  | 'f' => some '\x0C'
  | 'n' => some '\n'
  | 'r' => some '\r'
  | 't' => some '\t'
  | _ => none

/-- A string literal after its opening quote. -/
def glyphs : Reader (List Glyph)
  | [] => none
  | '"' :: r => some ([], r)
  | '\\' :: 'u' :: a :: b :: c :: d :: r =>
    match unit? a b c d, glyphs r with
    | some u, some (gs, r) => some (.unit u :: gs, r)
    | _, _ => none
  | '\\' :: e :: r =>
    match escaped? e, glyphs r with
    | some c, some (gs, r) => some (.char c :: gs, r)
    | _, _ => none
  | c :: r =>
    if c.toNat < 0x20 || c == '\\' then none
    else match glyphs r with
      | some (gs, r) => some (.char c :: gs, r)
      | none => none

def digitsOf (cs : List Char) : List Nat × List Char :=
  ((cs.takeWhile Char.isDigit).map fun c => c.toNat - '0'.toNat, cs.dropWhile Char.isDigit)

def someDigits : Reader (List Nat) := fun cs =>
  match digitsOf cs with
  | ([], _) => none
  | (ds, r) => some (ds, r)

/-- No digit follows a leading zero. -/
def whole : Reader (List Nat) := fun cs =>
  match digitsOf cs with
  | ([], _) => none
  | (0 :: _ :: _, _) => none
  | (ds, r) => some (ds, r)

def fraction : Reader (List Nat)
  | '.' :: r => someDigits r
  | r => some ([], r)

def natOfDigits (ds : List Nat) : Nat := ds.foldl (fun n d => n * 10 + d) 0

def exponent : Reader (Option Int)
  | c :: r =>
    if c == 'e' || c == 'E' then
      match r with
      | '-' :: r => (someDigits r).map fun (ds, r) => (some (-(natOfDigits ds : Int)), r)
      | '+' :: r => (someDigits r).map fun (ds, r) => (some (natOfDigits ds : Int), r)
      | r => (someDigits r).map fun (ds, r) => (some (natOfDigits ds : Int), r)
    else some (none, c :: r)
  | [] => some (none, [])

def unsigned (negative : Bool) : Reader Numeral := fun cs => do
  let (w, r) ← whole cs
  let (f, r) ← fraction r
  let (e, r) ← exponent r
  return (⟨negative, w, f, e⟩, r)

def numeral : Reader Numeral
  | '-' :: r => unsigned true r
  | r => unsigned false r

mutual
/-- A value, after blanks; `fuel` bounds the productions used. -/
def value (fuel : Nat) : Reader Raw := fun cs =>
  match fuel with
  | 0 => none
  | fuel + 1 =>
    match skipGap cs with
    | 'n' :: 'u' :: 'l' :: 'l' :: r => some (.null, r)
    | 't' :: 'r' :: 'u' :: 'e' :: r => some (.bool true, r)
    | 'f' :: 'a' :: 'l' :: 's' :: 'e' :: r => some (.bool false, r)
    | '"' :: r => (glyphs r).map fun (gs, r) => (.string gs, r)
    | '[' :: r =>
      match skipGap r with
      | ']' :: r => some (.array [], r)
      | r => (elements fuel r).map fun (es, r) => (.array es, r)
    | '{' :: r =>
      match skipGap r with
      | '}' :: r => some (.object [], r)
      | r => (members fuel r).map fun (ms, r) => (.object ms, r)
    | r => (numeral r).map fun (n, r) => (.number n, r)
/-- The elements of an array that has some, up to the bracket that closes it. -/
def elements (fuel : Nat) : Reader (List Raw) := fun cs =>
  match fuel with
  | 0 => none
  | fuel + 1 =>
    match value fuel cs with
    | none => none
    | some (e, r) =>
      match skipGap r with
      | ',' :: r => (elements fuel r).map fun (es, r) => (e :: es, r)
      | ']' :: r => some ([e], r)
      | _ => none
/-- The members of an object that has some, up to the brace that closes it. -/
def members (fuel : Nat) : Reader (List (List Glyph × Raw)) := fun cs =>
  match fuel with
  | 0 => none
  | fuel + 1 =>
    match skipGap cs with
    | '"' :: r =>
      match glyphs r with
      | none => none
      | some (k, r) =>
        match skipGap r with
        | ':' :: r =>
          match value fuel r with
          | none => none
          | some (e, r) =>
            match skipGap r with
            | ',' :: r => (members fuel r).map fun (ms, r) => ((k, e) :: ms, r)
            | '}' :: r => some ([(k, e)], r)
            | _ => none
        | _ => none
    | _ => none
end

/-- A whole text; each character pays for at most two productions. -/
def document? (s : String) : Option Raw :=
  match value (2 * s.toList.length + 2) s.toList with
  | some (e, r) => if skipGap r = [] then some e else none
  | none => none

end Grammar

/-- The document that a text holds. -/
def parse (s : String) : Except Fault Json :=
  match Grammar.document? s with
  | some e => e.value maxDepth
  | none => .error .malformed

theorem keysDistinct_of_parse {s : String} {j : Json} (h : parse s = .ok j) : j.KeysDistinct := by
  rw [parse] at h
  split at h
  · exact Raw.keysDistinct_value _ h
  · cases h

end OnchainSchema.Json
