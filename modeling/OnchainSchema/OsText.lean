import OnchainSchema.Text.Pieces
import OnchainSchema.Text.Utf8

/-!
Text of the operating system, such as the names of files. It is bytes, which are most often the UTF-8
of some text and need not be of any.
-/
namespace OnchainSchema

structure OsText where
  bytes : List UInt8
  deriving DecidableEq, Repr, Inhabited

namespace OsText

def ofString (s : String) : OsText := ⟨Text.bytes s⟩

instance : Coe String OsText := ⟨ofString⟩

instance : Append OsText := ⟨fun s t => ⟨s.bytes ++ t.bytes⟩⟩

@[simp] theorem bytes_append (s t : OsText) : (s ++ t).bytes = s.bytes ++ t.bytes := rfl

/-- In the order of the bytes. -/
instance : LT OsText := ⟨fun s t => s.bytes < t.bytes⟩

instance (s t : OsText) : Decidable (s < t) := inferInstanceAs (Decidable (s.bytes < t.bytes))

/-- How many bytes it has. -/
def size (s : OsText) : Nat := s.bytes.length

@[simp] theorem size_append (s t : OsText) : (s ++ t).size = s.size + t.size :=
  List.length_append

/-- The text whose UTF-8 the bytes are. -/
def text? (s : OsText) : Option String := String.fromUTF8? s.bytes.toByteArray

theorem text?_eq_some_iff {s : OsText} {text : String} : s.text? = some text ↔ s = text := by
  rw [text?, Text.fromUTF8?_eq_some_iff, ← Text.toByteArray_bytes]
  constructor
  · intro h
    have hbytes : s.bytes = Text.bytes text := by simpa using congrArg (·.data.toList) h
    exact congrArg mk hbytes
  · rintro rfl
    rfl

def isText (s : OsText) : Bool := s.text?.isSome

theorem isText_iff {s : OsText} : s.isText = true ↔ ∃ text : String, s = text := by
  simp only [isText, Option.isSome_iff_exists, text?_eq_some_iff]

/-- A character of which not all bytes have been read: its code so far, and between which bounds each
of its other bytes is. -/
structure Unfinished where
  code : Nat
  owed : List (UInt8 × UInt8)

/-- The character that begins with a byte. -/
def begin? (b : UInt8) : Option Unfinished :=
  let tail := (0x80, 0xBF)
  if b < 0x80 then some ⟨b.toNat, []⟩
  else if b < 0xC2 then none
  else if b < 0xE0 then some ⟨b.toNat % 32, [tail]⟩
  else if b = 0xE0 then some ⟨0, [(0xA0, 0xBF), tail]⟩
  else if b = 0xED then some ⟨13, [(0x80, 0x9F), tail]⟩
  else if b < 0xF0 then some ⟨b.toNat % 16, [tail, tail]⟩
  else if b = 0xF0 then some ⟨0, [(0x90, 0xBF), tail, tail]⟩
  else if b < 0xF4 then some ⟨b.toNat % 8, [tail, tail, tail]⟩
  else if b = 0xF4 then some ⟨4, [(0x80, 0x8F), tail, tail]⟩
  else none

/-- What stands for bytes that are no character. -/
def replacement : Char := '\uFFFD'

/-- What a character shows if none of its bytes is owed, and what is left of it. -/
def Unfinished.emit (u : Unfinished) : List Char × Option Unfinished :=
  if u.owed = [] then ([Char.ofNat u.code], none) else ([], some u)

/-- What one more byte shows, and the character it leaves unfinished. -/
def showByte (pending : Option Unfinished) (b : UInt8) : List Char × Option Unfinished :=
  let fresh := match begin? b with
    | some u => u.emit
    | none => ([replacement], none)
  match pending with
  | some ⟨code, (low, high) :: owed⟩ =>
    if low ≤ b ∧ b ≤ high then Unfinished.emit ⟨code * 64 + b.toNat % 64, owed⟩
    else (replacement :: fresh.1, fresh.2)
  | _ => fresh

/-- The characters that bytes show. Bytes that begin a character and do not go on with it show as one
replacement, and so does every other byte that is part of none. -/
def showBytes (pending : Option Unfinished) : List UInt8 → List Char
  | [] => if pending.isSome then [replacement] else []
  | b :: bs => (showByte pending b).1 ++ showBytes (showByte pending b).2 bs

/-- How it is shown to a reader. -/
def shown (s : OsText) : String := s.text?.getD (String.ofList (showBytes none s.bytes))

/-- The parts between the bytes `sep`. -/
def split (sep : UInt8) (s : OsText) : List OsText := (Text.pieces (· == sep) s.bytes).map mk

theorem split_ne_nil (sep : UInt8) (s : OsText) : s.split sep ≠ [] := by
  rw [split, ne_eq, List.map_eq_nil_iff]
  exact Text.pieces_ne_nil _ _

/-- The parts with `sep` between neighbours. -/
def join (sep : UInt8) (parts : List OsText) : OsText :=
  ⟨List.intercalate [sep] (parts.map bytes)⟩

theorem join_split (sep : UInt8) (s : OsText) : join sep (s.split sep) = s := by
  have hparts : bytes ∘ mk = id := rfl
  rw [join, split, List.map_map, hparts, List.map_id, Text.intercalate_pieces]

/-- A separator after the text starts a part of its own. -/
theorem split_append_sep (sep : UInt8) (s t : OsText) :
    split sep (s ++ ⟨[sep]⟩ ++ t) = split sep s ++ split sep t := by
  have hbytes : (s ++ ⟨[sep]⟩ ++ t).bytes = s.bytes ++ sep :: t.bytes := by simp
  rw [split, hbytes, Text.pieces_append_sep _ _ _ (by simp), List.map_append]
  rfl

theorem split_of_notMem {sep : UInt8} {s : OsText} (h : sep ∉ s.bytes) : split sep s = [s] := by
  rw [split, Text.pieces_of_forall_not (Text.beq_eq_false_of_notMem h)]
  rfl

example : shown ⟨[0x61, 0xF0, 0x9F, 0x98, 0x62, 0xFF, 0xC3]⟩ = "a\uFFFDb\uFFFD\uFFFD" := by
  decide

end OsText

end OnchainSchema
