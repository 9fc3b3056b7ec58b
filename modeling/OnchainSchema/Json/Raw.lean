import OnchainSchema.Json.Basic

/-!
JSON text after reading and before it has a value: escapes are undecoded, numbers are digits, and
an object holds every member that was written.
-/
namespace OnchainSchema.Json

/-- One place of a string literal: a character, or the UTF-16 unit of a `\u` escape. -/
inductive Glyph where
  | char (c : Char)
  | unit (u : Nat)
  deriving DecidableEq, Repr

/-- Joins surrogate pairs; `none` if a surrogate stands alone. -/
def decodeGlyphs : List Glyph → Option (List Char)
  | [] => some []
  | .char c :: gs => (decodeGlyphs gs).map (c :: ·)
  | .unit u :: gs =>
    if u < 0xD800 || 0xE000 ≤ u then (decodeGlyphs gs).map (Char.ofNat u :: ·)
    else match gs with
      | .unit l :: gs =>
        if u < 0xDC00 && 0xDC00 ≤ l && l < 0xE000 then
          (decodeGlyphs gs).map
            (Char.ofNat (0x10000 + (u - 0xD800) * 0x400 + (l - 0xDC00)) :: ·)
        else none
      | _ => none

inductive Raw where
  | null
  | bool (b : Bool)
  | number (n : Numeral)
  | string (gs : List Glyph)
  | array (elems : List Raw)
  | object (members : List (List Glyph × Raw))

/-- Why a text is no JSON document. -/
inductive Fault where
  | malformed
  | tooDeep
  | loneSurrogate
  | numberTooLarge
  deriving DecidableEq, Repr

def Fault.message : Fault → String
  | .malformed => "malformed document"
  | .tooDeep => "too many nested arrays and objects"
  | .loneSurrogate => "surrogate without its pair"
  | .numberTooLarge => "number out of range"

def textOf (gs : List Glyph) : Except Fault String :=
  match decodeGlyphs gs with
  | some cs => .ok (String.ofList cs)
  | none => .error .loneSurrogate

/-- Arrays and objects may stand in each other this deep. -/
def maxDepth : Nat := 127

namespace Raw

mutual
/-- The value, with room for `room` levels of arrays and objects. A key that is written again keeps
its first place and takes the last value. -/
def value (room : Nat) : Raw → Except Fault Json
  | .null => .ok .null
  | .bool b => .ok (.bool b)
  | .number n => match n.value? with
    | some v => .ok (.num v)
    | none => .error .numberTooLarge
  | .string gs => (textOf gs).map .str
  | .array es =>
    if room = 0 then .error .tooDeep else (values (room - 1) es).map .arr
  | .object ms =>
    if room = 0 then .error .tooDeep
    else (writes (room - 1) ms).map fun ws => .obj (Members.ofWrites ws)
def values (room : Nat) : List Raw → Except Fault (List Json)
  | [] => .ok []
  | e :: es => do
    let v ← value room e
    let vs ← values room es
    return v :: vs
def writes (room : Nat) : List (List Glyph × Raw) → Except Fault (List (String × Json))
  | [] => .ok []
  | (k, e) :: ms => do
    let key ← textOf k
    let v ← value room e
    let ws ← writes room ms
    return (key, v) :: ws
end

theorem map_eq_ok_iff {α β : Type} {x : Except Fault α} {f : α → β} {b : β} :
    x.map f = .ok b ↔ ∃ a, x = .ok a ∧ f a = b := by
  cases x <;> simp [Except.map]

theorem bind_eq_ok_iff {α β : Type} {x : Except Fault α} {f : α → Except Fault β} {b : β} :
    x >>= f = .ok b ↔ ∃ a, x = .ok a ∧ f a = .ok b := by
  cases x <;> simp [bind, Except.bind]

mutual
/-- A value has no key twice, even where the text has. -/
theorem keysDistinct_value {room : Nat} {j : Json} :
    (e : Raw) → value room e = .ok j → j.KeysDistinct
  | .null, h | .bool _, h => by
    cases h
    trivial
  | .number n, h => by
    rw [value] at h
    split at h
    · cases h
      trivial
    · cases h
  | .string gs, h => by
    obtain ⟨s, -, rfl⟩ := map_eq_ok_iff.mp h
    trivial
  | .array es, h => by
    rw [value] at h
    split at h
    · cases h
    · obtain ⟨vs, hes, rfl⟩ := map_eq_ok_iff.mp h
      exact keysDistinct_values es hes
  | .object ms, h => by
    rw [value] at h
    split at h
    · cases h
    · obtain ⟨ws, hms, rfl⟩ := map_eq_ok_iff.mp h
      exact ⟨Members.nodup_keys_ofWrites ws, (keysDistinct_writes ms hms).ofWrites⟩
theorem keysDistinct_values {room : Nat} {js : List Json} :
    (es : List Raw) → values room es = .ok js → KeysDistinctElems js
  | [], h => by
    cases h
    trivial
  | e :: es, h => by
    rw [values] at h
    obtain ⟨v, he, h⟩ := bind_eq_ok_iff.mp h
    obtain ⟨vs, hes, h⟩ := bind_eq_ok_iff.mp h
    cases h
    exact ⟨keysDistinct_value e he, keysDistinct_values es hes⟩
theorem keysDistinct_writes {room : Nat} {ws : Members} :
    (ms : List (List Glyph × Raw)) → writes room ms = .ok ws → KeysDistinctMembers ws
  | [], h => by
    cases h
    trivial
  | (k, e) :: ms, h => by
    rw [writes] at h
    obtain ⟨key, -, h⟩ := bind_eq_ok_iff.mp h
    obtain ⟨v, he, h⟩ := bind_eq_ok_iff.mp h
    obtain ⟨rest, hms, h⟩ := bind_eq_ok_iff.mp h
    cases h
    exact ⟨keysDistinct_value e he, keysDistinct_writes ms hms⟩
end

end Raw

end OnchainSchema.Json
