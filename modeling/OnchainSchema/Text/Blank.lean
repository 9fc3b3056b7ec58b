import OnchainSchema.Text.Pieces

/-! Unicode White_Space: trimming text and taking its words. -/
namespace OnchainSchema.Text

/-- The characters with the property White_Space. -/
def isBlank (c : Char) : Bool :=
  let n := c.toNat
  (0x9 ≤ n && n ≤ 0xD) || n == 0x20 || n == 0x85 || n == 0xA0 || n == 0x1680 ||
    (0x2000 ≤ n && n ≤ 0x200A) || n == 0x2028 || n == 0x2029 || n == 0x202F || n == 0x205F ||
    n == 0x3000

def trimChars (cs : List Char) : List Char :=
  ((cs.dropWhile isBlank).reverse.dropWhile isBlank).reverse

/-- The text without leading and trailing blanks. -/
def trim (s : String) : String := String.ofList (trimChars s.toList)

def wordsOf (cs : List Char) : List (List Char) := (pieces isBlank cs).filter (!·.isEmpty)

/-- The maximal runs of characters that are not blank. -/
def words (s : String) : List String := (wordsOf s.toList).map String.ofList

/-- Nothing but blanks. -/
def isBlankText (s : String) : Bool := s.toList.all isBlank

/-- A word: characters that are not blank, at least one. -/
def IsWord (w : List Char) : Prop := w ≠ [] ∧ ∀ c ∈ w, isBlank c = false

variable {cs lead rest w : List Char} {s t first second : String}

theorem isBlankText_iff : isBlankText s ↔ ∀ c ∈ s.toList, isBlank c = true := by
  simp [isBlankText]

theorem isBlankText_ofList : isBlankText (String.ofList cs) ↔ ∀ c ∈ cs, isBlank c = true := by
  rw [isBlankText_iff, String.toList_ofList]

/-- `t` is `s` without the blanks at either end. -/
def Trimmed (s t : String) : Prop :=
  ∃ lead trail, s = lead ++ t ++ trail ∧ isBlankText lead ∧ isBlankText trail ∧
    (∀ c ∈ t.toList.head?, isBlank c = false) ∧ ∀ c ∈ t.toList.getLast?, isBlank c = false

theorem trim_eq_iff : trim s = t ↔ Trimmed s t := by
  have hchars : trim s = t ↔ (s.toList.dropWhile isBlank).reverse.dropWhile isBlank =
      t.toList.reverse := by
    rw [← String.toList_inj, trim, String.toList_ofList, trimChars, List.reverse_eq_iff]
  rw [hchars, dropWhile_eq_iff]
  constructor
  · rintro ⟨trail, hmiddle, htrail, hlast⟩
    rw [List.reverse_eq_iff, List.reverse_append, List.reverse_reverse, dropWhile_eq_iff]
      at hmiddle
    obtain ⟨lead, hs, hlead, hfirst⟩ := hmiddle
    refine ⟨String.ofList lead, String.ofList trail.reverse, ?_, isBlankText_ofList.mpr hlead,
      isBlankText_ofList.mpr (by simpa using htrail), ?_, ?_⟩
    · rw [← String.toList_inj, hs]
      simp
    · intro c hc
      refine hfirst c ?_
      rw [List.head?_append, hc]
      rfl
    · simpa using hlast
  · rintro ⟨lead, trail, rfl, hlead, htrail, hfirst, hlast⟩
    rw [isBlankText_iff] at hlead htrail
    rw [← List.getLast?_eq_head?_reverse]
    cases ht : t.toList with
    | nil =>
      have hnone : (lead ++ t ++ trail).toList.dropWhile isBlank = [] := by
        rw [dropWhile_eq_iff]
        exact ⟨lead.toList ++ trail.toList, by simp [ht],
          List.forall_mem_append.mpr ⟨hlead, htrail⟩, by simp⟩
      exact ⟨[], by rw [hnone]; rfl, by simp, by simp⟩
    | cons c chars =>
      rw [ht] at hfirst hlast
      have hrest : (lead ++ t ++ trail).toList.dropWhile isBlank = c :: chars ++ trail.toList := by
        rw [dropWhile_eq_iff]
        exact ⟨lead.toList, by simp [ht], hlead, hfirst⟩
      exact ⟨trail.toList.reverse, by rw [hrest, List.reverse_append], by simpa using htrail, hlast⟩

theorem isWord_of_mem_wordsOf (h : w ∈ wordsOf cs) : IsWord w := by
  simp only [wordsOf, List.mem_filter, Bool.not_eq_eq_eq_not, Bool.not_true,
    List.isEmpty_eq_false_iff] at h
  exact ⟨h.2, not_of_mem_pieces h.1⟩

theorem mem_of_mem_words {s w : String} (h : w ∈ words s) :
    w ≠ "" ∧ ∀ c ∈ w.toList, isBlank c = false ∧ c ∈ s.toList := by
  obtain ⟨v, hv, rfl⟩ := List.mem_map.mp h
  obtain ⟨hne, hblank⟩ := isWord_of_mem_wordsOf hv
  refine ⟨by simpa using hne, fun c hc => ?_⟩
  rw [String.toList_ofList] at hc
  exact ⟨hblank c hc, mem_of_mem_pieces (List.mem_filter.mp hv).1 c hc⟩

theorem wordsOf_of_isWord (h : IsWord w) : wordsOf w = [w] := by
  simp [wordsOf, pieces_of_forall_not h.2, h.1]

/-- A blank ends the words before it. -/
theorem wordsOf_append_blank (cs rest : List Char) {b : Char} (h : isBlank b = true) :
    wordsOf (cs ++ b :: rest) = wordsOf cs ++ wordsOf rest := by
  rw [wordsOf, pieces_append_sep isBlank cs rest h, List.filter_append, wordsOf, wordsOf]

theorem wordsOf_blank_cons {b : Char} (h : isBlank b = true) (cs : List Char) :
    wordsOf (b :: cs) = wordsOf cs :=
  wordsOf_append_blank [] cs h

theorem wordsOf_append_of_blank (hlead : ∀ c ∈ lead, isBlank c = true) (cs : List Char) :
    wordsOf (lead ++ cs) = wordsOf cs := by
  induction lead with
  | nil => rfl
  | cons b lead ih =>
    rw [List.forall_mem_cons] at hlead
    rw [List.cons_append, wordsOf_blank_cons hlead.1, ih hlead.2]

theorem wordsOf_word_append (hw : IsWord w) (hrest : ∀ c ∈ rest.head?, isBlank c = true) :
    wordsOf (w ++ rest) = w :: wordsOf rest := by
  cases rest with
  | nil => rw [List.append_nil, wordsOf_of_isWord hw]; rfl
  | cons b rest =>
    have hb : isBlank b = true := hrest b rfl
    rw [wordsOf_append_blank w rest hb, wordsOf_of_isWord hw, wordsOf_blank_cons hb]
    rfl

theorem wordsOf_eq_nil_iff : wordsOf cs = [] ↔ ∀ c ∈ cs, isBlank c = true := by
  induction cs with
  | nil => simp [wordsOf, pieces]
  | cons c cs ih =>
    rw [List.forall_mem_cons]
    cases hc : isBlank c with
    | true => rw [wordsOf_blank_cons hc, ih, eq_self, true_and]
    | false =>
      obtain ⟨head, tail, hp⟩ := List.exists_cons_of_ne_nil (pieces_ne_nil isBlank cs)
      simp [wordsOf, pieces, hc, hp]

theorem words_eq_nil_iff : words s = [] ↔ isBlankText s := by
  rw [words, List.map_eq_nil_iff, wordsOf_eq_nil_iff, isBlankText_iff]

/-- The first word of a text follows its leading blanks and ends at a blank or with the text. -/
theorem wordsOf_eq_cons_iff {ws : List (List Char)} : wordsOf cs = w :: ws ↔
    ∃ lead rest, cs = lead ++ (w ++ rest) ∧ (∀ c ∈ lead, isBlank c = true) ∧ IsWord w ∧
      (∀ c ∈ rest.head?, isBlank c = true) ∧ wordsOf rest = ws := by
  constructor
  · intro h
    obtain ⟨middle, hmiddle⟩ : ∃ middle, cs.dropWhile isBlank = middle := ⟨_, rfl⟩
    obtain ⟨lead, rfl, hlead, hfirst⟩ := dropWhile_eq_iff.mp hmiddle
    obtain ⟨rest, htail⟩ : ∃ rest, middle.dropWhile (!isBlank ·) = rest := ⟨_, rfl⟩
    obtain ⟨v, rfl, hv, hrest⟩ := dropWhile_eq_iff.mp htail
    simp only [Bool.not_eq_true', Bool.not_eq_false'] at hv hrest
    rw [wordsOf_append_of_blank hlead] at h
    have hne : v ≠ [] := by
      rintro rfl
      cases rest with
      | nil => simp [wordsOf, pieces] at h
      | cons c rest => simp [hfirst c rfl] at hrest
    rw [wordsOf_word_append ⟨hne, hv⟩ hrest] at h
    obtain ⟨rfl, hws⟩ := List.cons.inj h
    exact ⟨lead, rest, rfl, hlead, ⟨hne, hv⟩, hrest, hws⟩
  · rintro ⟨lead, rest, rfl, hlead, hword, hrest, rfl⟩
    rw [wordsOf_append_of_blank hlead, wordsOf_word_append hword hrest]

/-- Two words with blanks between and around them. -/
def TwoWords (s first second : String) : Prop :=
  ∃ lead gap trail, s = lead ++ first ++ gap ++ second ++ trail ∧ IsWord first.toList ∧
    IsWord second.toList ∧ isBlankText lead ∧ isBlankText gap ∧ isBlankText trail ∧ gap ≠ ""

theorem words_eq_pair_iff : words s = [first, second] ↔ TwoWords s first second := by
  have hchars : words s = [first, second] ↔
      wordsOf s.toList = [first.toList, second.toList] := by
    rw [words, ← List.map_inj_right (f := String.toList) (fun _ _ => String.toList_inj.mp)]
    simp [Function.comp_def]
  rw [hchars, wordsOf_eq_cons_iff]
  constructor
  · rintro ⟨lead, rest, hs, hlead, hfirst, hrest, hwords⟩
    obtain ⟨gap, trail, rfl, hgap, hsecond, -, htrail⟩ := wordsOf_eq_cons_iff.mp hwords
    have hne : gap ≠ [] := by
      rintro rfl
      obtain ⟨c, cs, hc⟩ := List.exists_cons_of_ne_nil hsecond.1
      have hblank := hrest c (by simp [hc])
      rw [hsecond.2 c (by simp [hc])] at hblank
      cases hblank
    refine ⟨String.ofList lead, String.ofList gap, String.ofList trail, ?_, hfirst, hsecond,
      isBlankText_ofList.mpr hlead, isBlankText_ofList.mpr hgap,
      isBlankText_ofList.mpr (wordsOf_eq_nil_iff.mp htrail), by simpa using hne⟩
    rw [← String.toList_inj, hs]
    simp
  · rintro ⟨lead, gap, trail, rfl, hfirst, hsecond, hlead, hgap, htrail, hne⟩
    rw [isBlankText_iff] at hlead hgap htrail
    have hstart {x y : List Char} (hx : ∀ c ∈ x, isBlank c = true) (hxy : x = [] → y = []) :
        ∀ c ∈ (x ++ y).head?, isBlank c = true := by
      cases x with
      | nil => simp [hxy rfl]
      | cons c x => simpa using hx c (by simp)
    refine ⟨lead.toList, gap.toList ++ (second.toList ++ trail.toList), by simp, hlead, hfirst,
      hstart hgap (by simp [hne]), wordsOf_eq_cons_iff.mpr ?_⟩
    refine ⟨gap.toList, trail.toList, rfl, hgap, hsecond, ?_, wordsOf_eq_nil_iff.mpr htrail⟩
    exact fun c hc => htrail c (List.mem_of_mem_head? hc)

/-- Text joined from the words of a text is blank only if there are none. -/
theorem isBlankText_join_words (sep s : String) :
    isBlankText (join sep (words s)) = isBlankText s := by
  cases hw : words s with
  | nil =>
    rw [words_eq_nil_iff.mp hw]
    rfl
  | cons w ws =>
    have hs : isBlankText s = false := by
      rw [← Bool.not_eq_true, ← words_eq_nil_iff, hw]
      simp
    obtain ⟨hne, hchars⟩ := mem_of_mem_words (hw ▸ List.mem_cons_self : w ∈ words s)
    obtain ⟨c, cs, hc⟩ := List.exists_cons_of_ne_nil (show w.toList ≠ [] by simpa using hne)
    have hfirst : c ∈ (join sep (w :: ws)).toList := by
      cases ws <;> simp [List.intercalate_cons_cons, hc]
    have hblank : isBlank c = false := (hchars c (by simp [hc])).1
    rw [hs, isBlankText, List.all_eq_false]
    exact ⟨c, hfirst, by simp [hblank]⟩

end OnchainSchema.Text
