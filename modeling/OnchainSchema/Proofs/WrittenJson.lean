import Mathlib.Data.List.Forall2
import OnchainSchema.Json.Grammar
import OnchainSchema.Json.Writer

/-!
Reading what has been written. A string is read glyph by glyph as it was escaped, and its glyphs
stand for the characters that were written. An object is read in either layout with its members in
their places, if their values are, and however the text goes on after it.
-/
namespace OnchainSchema.Json

/-- The place that a character takes in the literal that is written for it. -/
def writtenGlyph (c : Char) : Glyph :=
  if c.toNat < 0x20 ∧ c ∉ ['\x08', '\x0C', '\n', '\r', '\t'] then .unit c.toNat else .char c

/-- The literal that is written for a text. -/
def writtenGlyphs (s : String) : List Glyph := s.toList.map writtenGlyph

theorem decodeGlyphs_map_writtenGlyph (cs : List Char) :
    decodeGlyphs (cs.map writtenGlyph) = some cs := by
  induction cs with
  | nil => rfl
  | cons c cs ih =>
    rw [List.map_cons, writtenGlyph]
    split
    next hc =>
      have hlow : (decide (c.toNat < 0xD800) || decide (0xE000 ≤ c.toNat)) = true := by
        rw [decide_eq_true (by omega), Bool.true_or]
      unfold decodeGlyphs
      rw [if_pos hlow, ih, Char.ofNat_toNat]
      rfl
    next => rw [decodeGlyphs, ih]; rfl

/-- What is written for a text stands for the text. -/
theorem decodeGlyphs_writtenGlyphs (s : String) : decodeGlyphs (writtenGlyphs s) = some s.toList :=
  decodeGlyphs_map_writtenGlyph s.toList

namespace Grammar

section Strings

variable {c : Char} (r : List Char)

theorem glyphs_letter {e : Char} (h : escaped? e = some c) :
    glyphs ('\\' :: e :: r) = (glyphs r).map fun p => (.char c :: p.1, p.2) := by
  have he : e ≠ 'u' := by
    rintro rfl
    cases h
  rw [glyphs]
  · rw [h]
    cases glyphs r <;> rfl
  · intro _ _ _ _ _ heq
    exact absurd heq he

theorem hexValue?_hexDigit : ∀ n < 16, hexValue? (hexDigit n) = some n := by decide

theorem glyphs_unit (h : c.toNat < 0x20) :
    glyphs ('\\' :: 'u' :: '0' :: '0' :: hexDigit (c.toNat / 16) :: hexDigit (c.toNat % 16) :: r) =
      (glyphs r).map fun p => (.unit c.toNat :: p.1, p.2) := by
  have hzero : hexValue? '0' = some 0 := by decide
  have hhigh := hexValue?_hexDigit (c.toNat / 16) (by omega)
  have hlow := hexValue?_hexDigit (c.toNat % 16) (by omega)
  have hunit : unit? '0' '0' (hexDigit (c.toNat / 16)) (hexDigit (c.toNat % 16)) = some c.toNat := by
    rw [unit?, hzero, hhigh, hlow]
    exact congrArg some (by omega)
  rw [glyphs, hunit]
  cases glyphs r <;> rfl

theorem glyphs_self (hquote : c ≠ '"') (hslash : c ≠ '\\') (hc : ¬ c.toNat < 0x20) :
    glyphs (c :: r) = (glyphs r).map fun p => (.char c :: p.1, p.2) := by
  rw [glyphs]
  · rw [if_neg (by simp [hc, hslash])]
    cases glyphs r <;> rfl
  · exact hquote
  · intro _ _ _ _ _ heq
    exact absurd heq hslash
  · intro _ _ heq
    exact absurd heq hslash

/-- Each escape is read as one glyph. -/
theorem glyphs_escape (c : Char) :
    glyphs (escape c ++ r) = (glyphs r).map fun p => (writtenGlyph c :: p.1, p.2) := by
  by_cases hletter : c ∈ ['"', '\\', '\x08', '\x0C', '\n', '\r', '\t']
  · simp only [List.mem_cons, List.not_mem_nil, or_false] at hletter
    rcases hletter with rfl | rfl | rfl | rfl | rfl | rfl | rfl <;> exact glyphs_letter r rfl
  · simp only [List.mem_cons, List.not_mem_nil, or_false, not_or] at hletter
    obtain ⟨hquote, hslash, hcontrols⟩ := hletter
    by_cases hlow : c.toNat < 0x20
    · rw [escape, writtenGlyph]
      simp only [hquote, hslash, hcontrols, hlow, List.mem_cons, List.not_mem_nil, or_self,
        not_false_eq_true, and_self, ↓reduceIte]
      exact glyphs_unit r hlow
    · rw [escape, writtenGlyph]
      simp only [hquote, hslash, hcontrols, hlow, false_and, ↓reduceIte]
      exact glyphs_self r hquote hslash hlow

/-- A literal ends where it was ended. -/
theorem glyphs_flatMap_escape (cs : List Char) :
    glyphs (cs.flatMap escape ++ '"' :: r) = some (cs.map writtenGlyph, r) := by
  induction cs with
  | nil => rfl
  | cons c cs ih =>
    rw [List.flatMap_cons, List.append_assoc, glyphs_escape, ih]
    rfl

end Strings

theorem skipGap_append {gap : List Char} (h : ∀ c ∈ gap, isGap c) (cs : List Char) :
    skipGap (gap ++ cs) = skipGap cs := by
  rw [skipGap, List.dropWhile_append_of_pos h, skipGap]

theorem skipGap_cons {c : Char} (h : isGap c = false) (cs : List Char) :
    skipGap (c :: cs) = c :: cs := by
  rw [skipGap, List.dropWhile_cons_of_neg (by simp [h])]

theorem value_append_of_gap {gap : List Char} (h : ∀ c ∈ gap, isGap c) (fuel : Nat)
    (cs : List Char) : value fuel (gap ++ cs) = value fuel cs := by
  cases fuel with
  | zero => rfl
  | succ fuel => rw [value, value, skipGap_append h]

theorem members_append_of_gap {gap : List Char} (h : ∀ c ∈ gap, isGap c) (fuel : Nat)
    (cs : List Char) : members fuel (gap ++ cs) = members fuel cs := by
  cases fuel with
  | zero => rfl
  | succ fuel => rw [members, members, skipGap_append h]

end Grammar

namespace Layout

open Grammar

variable {l : Layout} {level : Nat}

theorem isGap_of_mem_gap : ∀ c ∈ l.gap level, isGap c := by
  intro c hc
  cases l with
  | compact => cases hc
  | pretty =>
    rcases List.mem_cons.mp hc with rfl | hc
    · rfl
    · rw [List.eq_of_mem_replicate hc]
      rfl

/-- A value on a level is read back as this, whatever comes after it, by a reader that may use two
productions for each character. -/
def ReadBack (l : Layout) (level : Nat) (j : Json) (e : Raw) : Prop :=
  ∀ fuel r, 2 * (l.chars level j).length ≤ fuel + 1 →
    value (fuel + 1) (l.chars level j ++ r) = some (e, r)

/-- A member on a level is read back as this one. -/
def MemberBack (l : Layout) (level : Nat) (m : String × Json) (f : List Glyph × Raw) : Prop :=
  f.1 = writtenGlyphs m.1 ∧ l.ReadBack level m.2 f.2

def memberChars (l : Layout) (level : Nat) (m : String × Json) : List Char :=
  quoteChars m.1.toList ++ l.colon ++ l.chars level m.2

theorem length_memberChars (l : Layout) (level : Nat) (m : String × Json) :
    (l.chars level m.2).length + 2 ≤ (l.memberChars level m).length := by
  simp only [memberChars, quoteChars, List.length_append, List.length_cons]
  omega

theorem membersTail_cons (m : String × Json) (ms : Members) :
    l.membersTail level (m :: ms) =
      ',' :: (l.gap (level + 1) ++ (l.memberChars (level + 1) m ++ l.membersTail level ms)) := by
  simp [membersTail, memberChars]

theorem chars_obj_cons (m : String × Json) (ms : Members) :
    l.chars level (.obj (m :: ms)) =
      '\x7b' :: (l.gap (level + 1) ++ (l.memberChars (level + 1) m ++ l.membersTail level ms)) := by
  simp [chars, memberChars]

theorem readBack_bool (b : Bool) : l.ReadBack level (.bool b) (.bool b) := by
  intro fuel r _
  cases b <;> rfl

theorem readBack_str (s : String) : l.ReadBack level (.str s) (.string (writtenGlyphs s)) := by
  intro fuel r _
  have hchars : l.chars level (.str s) ++ r = '"' :: (s.toList.flatMap escape ++ '"' :: r) := by
    simp [chars, quoteChars]
  rw [hchars, value, skipGap_cons rfl]
  simp only [glyphs_flatMap_escape]
  rfl

/-- A member is read back up to what comes after it. -/
theorem members_memberChars {m : String × Json} {f : List Glyph × Raw}
    (h : l.MemberBack level m f) {fuel : Nat}
    (hfuel : 2 * (l.chars level m.2).length ≤ fuel + 1) (tail : List Char) :
    members (fuel + 2) (l.memberChars level m ++ tail) =
      match skipGap tail with
      | ',' :: r => (members (fuel + 1) r).map fun p => (f :: p.1, p.2)
      | '\x7d' :: r => some ([f], r)
      | _ => none := by
  obtain ⟨key, e⟩ := f
  obtain ⟨rfl, hvalue⟩ := h
  have htext : l.memberChars level m ++ tail = '"' :: (m.1.toList.flatMap escape ++
      '"' :: (l.colon ++ (l.chars level m.2 ++ tail))) := by
    simp [memberChars, quoteChars]
  obtain ⟨gap, hcolon, hgap⟩ : ∃ gap, skipGap (l.colon ++ (l.chars level m.2 ++ tail)) =
      ':' :: (gap ++ (l.chars level m.2 ++ tail)) ∧ ∀ c ∈ gap, isGap c := by
    cases l with
    | compact => exact ⟨[], rfl, by simp⟩
    | pretty => exact ⟨[' '], rfl, List.forall_mem_singleton.mpr rfl⟩
  rw [htext, members, skipGap_cons rfl]
  simp only [glyphs_flatMap_escape, hcolon, value_append_of_gap hgap, hvalue fuel tail hfuel]
  rfl

/-- The members of an object are read back in their order, up to its brace. -/
theorem members_membersTail {ms : Members} {fs : List (List Glyph × Raw)}
    (h : List.Forall₂ (l.MemberBack (level + 1)) ms fs) {m : String × Json}
    {f : List Glyph × Raw} (hm : l.MemberBack (level + 1) m f) {fuel : Nat}
    (hfuel : 2 * ((l.chars (level + 1) m.2).length + (l.membersTail level ms).length) ≤ fuel + 3)
    (r : List Char) :
    members (fuel + 2) (l.memberChars (level + 1) m ++ (l.membersTail level ms ++ r)) =
      some (f :: fs, r) := by
  induction h generalizing m f fuel with
  | nil =>
    have hend : skipGap (l.membersTail level [] ++ r) = '\x7d' :: r := by
      rw [membersTail, List.append_assoc, skipGap_append isGap_of_mem_gap]
      rfl
    have hbrace : 1 ≤ (l.membersTail level []).length := by
      rw [membersTail, List.length_append]
      exact Nat.le_add_left 1 _
    rw [members_memberChars hm (by omega), hend]
    rfl
  | @cons m' f' ms fs hm' _ ih =>
    have hmore : skipGap (l.membersTail level (m' :: ms) ++ r) = ',' :: (l.gap (level + 1) ++
        (l.memberChars (level + 1) m' ++ (l.membersTail level ms ++ r))) := by
      rw [membersTail_cons, List.cons_append, List.append_assoc, List.append_assoc]
      exact skipGap_cons rfl _
    have hlength := length_memberChars l (level + 1) m'
    simp only [membersTail_cons, List.length_cons, List.length_append] at hfuel
    obtain ⟨fuel, rfl⟩ : ∃ n, fuel = n + 1 := ⟨fuel - 1, by omega⟩
    calc members (fuel + 3) (l.memberChars (level + 1) m ++ (l.membersTail level (m' :: ms) ++ r))
      _ = (members (fuel + 2) (l.gap (level + 1) ++ (l.memberChars (level + 1) m' ++
            (l.membersTail level ms ++ r)))).map fun p => (f :: p.1, p.2) := by
        rw [members_memberChars hm (by omega), hmore]
        rfl
      _ = some (f :: f' :: fs, r) := by
        rw [members_append_of_gap isGap_of_mem_gap, ih hm' (by omega)]
        rfl

/-- An object is read back member by member. -/
theorem readBack_obj {ms : Members} {fs : List (List Glyph × Raw)}
    (h : List.Forall₂ (l.MemberBack (level + 1)) ms fs) :
    l.ReadBack level (.obj ms) (.object fs) := by
  intro fuel r hfuel
  cases h with
  | nil => rfl
  | @cons m f ms fs hm hms =>
    have hlength := length_memberChars l (level + 1) m
    simp only [chars_obj_cons, List.length_cons, List.length_append] at hfuel
    obtain ⟨fuel, rfl⟩ : ∃ n, fuel = n + 2 := ⟨fuel - 2, by omega⟩
    have hmembers : members (fuel + 2) _ = some (f :: fs, r) :=
      members_membersTail hms hm (by omega) r
    -- The first character after the brace and the blanks is the quote of a key, and no brace.
    obtain ⟨q, hq⟩ : ∃ q, l.memberChars (level + 1) m ++ (l.membersTail level ms ++ r) = '"' :: q :=
      ⟨_, rfl⟩
    have hquote : skipGap (l.gap (level + 1) ++ '"' :: q) = '"' :: q := by
      rw [skipGap_append isGap_of_mem_gap]
      exact skipGap_cons rfl q
    rw [hq] at hmembers
    rw [chars_obj_cons, List.cons_append, List.append_assoc, List.append_assoc, hq, value,
      skipGap_cons rfl]
    simp only [hquote]
    exact congrArg (Option.map fun p => (Raw.object p.1, p.2)) hmembers

/-- A text is read as a document also where blanks come after it. -/
theorem document?_write_append {j : Json} {e : Raw} (h : l.ReadBack 0 j e) {gap : String}
    (hgap : ∀ c ∈ gap.toList, isGap c) : document? (l.write j ++ gap) = some e := by
  have htext : (l.write j ++ gap).toList = l.chars 0 j ++ gap.toList := by
    rw [String.toList_append, write, String.toList_ofList]
  have hend : skipGap gap.toList = [] := by
    rw [← List.append_nil gap.toList, skipGap_append hgap]
    rfl
  rw [document?, htext, h _ _ (by rw [List.length_append]; omega)]
  dsimp only
  rw [if_pos hend]

end Layout

end OnchainSchema.Json
