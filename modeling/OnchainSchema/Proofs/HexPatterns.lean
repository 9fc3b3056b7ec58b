import OnchainSchema.Abi.Hex64

/-!
Which patterns describe 64 hexadecimal digits: those in which a class of such digits stands right
before the repetition. What stands around the two never matters.
-/
namespace OnchainSchema

namespace Text

/-- The part stands somewhere in the text. -/
def Contains (s part : String) : Prop := ∃ before after, s = before ++ part ++ after

theorem hasInfix_toList_iff {s part : String} :
    hasInfix part.toList s.toList ↔ Contains s part := by
  rw [hasInfix_iff]
  constructor
  · rintro ⟨before, after, h⟩
    refine ⟨String.ofList before, String.ofList after, ?_⟩
    rw [← String.toList_inj, ← h]
    simp
  · rintro ⟨before, after, rfl⟩
    exact ⟨before.toList, after.toList, by simp⟩

end Text

namespace Hex64

/-- The class names the digits and the letters of one case. -/
def HexClass (cls : String) : Prop :=
  (Text.Contains cls "0-9" ∨ Text.Contains cls "\\d") ∧
    (Text.Contains cls "a-f" ∨ Text.Contains cls "A-F")

theorem isHexClass_toList_iff (cls : String) : isHexClass cls.toList ↔ HexClass cls := by
  simp only [isHexClass, HexClass, Bool.and_eq_true, Bool.or_eq_true, Text.hasInfix_toList_iff]

theorem openClass?_reverse_append {cls : List Char} (h : '[' ∉ cls) (seen : List Char) :
    openClass? (cls.reverse ++ '[' :: seen) = some cls := by
  have hplain : ∀ c ∈ cls.reverse, (c != '[') = true := by
    intro c hc
    rw [bne_iff_ne]
    rintro rfl
    exact h (List.mem_reverse.mp hc)
  rw [openClass?, if_pos (by simp), List.takeWhile_append_of_pos hplain]
  simp

/-- The open class is all that follows the last opening bracket. -/
theorem openClass?_eq_some_iff {seen cls : List Char} :
    openClass? seen = some cls ↔ ∃ before, seen.reverse = before ++ '[' :: cls ∧ '[' ∉ cls := by
  constructor
  · intro h
    have hmem : '[' ∈ seen := by
      rw [openClass?, Option.ite_none_right_eq_some] at h
      simpa using h.1
    obtain ⟨nearest, rest, rfl, hfree⟩ := List.eq_append_cons_of_mem hmem
    have hclosed : '[' ∉ nearest.reverse := by simpa using hfree
    have hclass := openClass?_reverse_append hclosed rest
    rw [List.reverse_reverse, h] at hclass
    obtain rfl := Option.some.inj hclass
    exact ⟨rest.reverse, by simp, hclosed⟩
  · rintro ⟨before, hseen, hfree⟩
    have hshape : seen = cls.reverse ++ '[' :: before.reverse := by
      rw [← List.reverse_inj, hseen]
      simp
    rw [hshape, openClass?_reverse_append hfree]

/-- The search tries every place, and at each it knows all that stands before. -/
theorem occursAfter_iff {seen cs : List Char} :
    occursAfter seen cs ↔ ∃ lead rest cls, cs = lead ++ repetition ++ rest ∧
      openClass? (lead.reverse ++ seen) = some cls ∧ isHexClass cls := by
  induction cs generalizing seen with
  | nil => simp [occursAfter, repetition]
  | cons c cs ih =>
    rw [occursAfter, Bool.or_eq_true, Bool.and_eq_true, List.isPrefixOf_iff_prefix, ih]
    constructor
    · rintro (⟨⟨rest, hrest⟩, hclass⟩ | ⟨lead, rest, cls, rfl, hopen, hcls⟩)
      · cases hopen : openClass? seen with
        | none => rw [hopen] at hclass; cases hclass
        | some cls =>
          rw [hopen] at hclass
          exact ⟨[], rest, cls, hrest.symm, hopen, hclass⟩
      · exact ⟨c :: lead, rest, cls, rfl, by simpa using hopen, hcls⟩
    · rintro ⟨lead, rest, cls, hcs, hopen, hcls⟩
      cases lead with
      | nil =>
        refine .inl ⟨⟨rest, hcs.symm⟩, ?_⟩
        rw [List.reverse_nil, List.nil_append] at hopen
        rw [hopen]
        exact hcls
      | cons d lead =>
        rw [List.cons_append, List.cons_append, List.cons.injEq] at hcs
        obtain ⟨rfl, rfl⟩ := hcs
        exact .inr ⟨lead, rest, cls, rfl, by simpa using hopen, hcls⟩

/-- A class of hexadecimal digits stands before the repetition, and no bracket is opened in it. -/
def Describes (pattern : String) : Prop :=
  ∃ before cls after, pattern = before ++ "[" ++ cls ++ "]\x7b64\x7d" ++ after ∧
    '[' ∉ cls.toList ∧ HexClass cls

theorem occurs_iff_describes (pattern : String) : occurs pattern ↔ Describes pattern := by
  rw [occurs, occursAfter_iff]
  simp only [List.append_nil, openClass?_eq_some_iff, List.reverse_reverse]
  constructor
  · rintro ⟨lead, rest, cls, hpattern, ⟨before, rfl, hfree⟩, hcls⟩
    refine ⟨String.ofList before, String.ofList cls, String.ofList rest, ?_, ?_, ?_⟩
    · rw [← String.toList_inj, hpattern]
      simp [repetition]
    · rwa [String.toList_ofList]
    · rw [← isHexClass_toList_iff, String.toList_ofList]
      exact hcls
  · rintro ⟨before, cls, after, rfl, hfree, hcls⟩
    refine ⟨before.toList ++ '[' :: cls.toList, after.toList, cls.toList, ?_,
      ⟨before.toList, rfl, hfree⟩, (isHexClass_toList_iff cls).mpr hcls⟩
    simp [repetition]

theorem Describes.append {pattern : String} (h : Describes pattern) (before after : String) :
    Describes (before ++ pattern ++ after) := by
  obtain ⟨lead, cls, rest, rfl, hfree, hcls⟩ := h
  refine ⟨before ++ lead, cls, rest ++ after, ?_, hfree, hcls⟩
  simp only [String.append_assoc]

/-- A pattern is taken for one of 64 hexadecimal digits exactly if it describes them somewhere. So
it still is with anything before and after it. -/
theorem occurs_iff_repeated_class :
    (∀ pattern, occurs pattern = true ↔
      ∃ before cls after, pattern = before ++ "[" ++ cls ++ "]\x7b64\x7d" ++ after ∧
        '[' ∉ cls.toList ∧ HexClass cls) ∧
    ∀ pattern, occurs pattern = true →
      ∀ before after, occurs (before ++ pattern ++ after) = true := by
  refine ⟨occurs_iff_describes, fun pattern h before after => ?_⟩
  rw [occurs_iff_describes] at h ⊢
  exact h.append before after

/-- The class before the first repetition names no letters, and a bracket is left open around. -/
theorem later_class_counts :
    occurs "é[0-9]\x7b64\x7d|[A-F\\d]\x7b64\x7d" = true ∧
    occurs ("^[" ++ "é[0-9]\x7b64\x7d|[A-F\\d]\x7b64\x7d" ++ "]\x7b64\x7d") = true := by
  have h : occurs "é[0-9]\x7b64\x7d|[A-F\\d]\x7b64\x7d" = true := by decide
  exact ⟨h, occurs_iff_repeated_class.2 _ h "^[" "]\x7b64\x7d"⟩

example : occurs "[0-9[a-f]\x7b64\x7d" = false := by decide

end Hex64

end OnchainSchema
