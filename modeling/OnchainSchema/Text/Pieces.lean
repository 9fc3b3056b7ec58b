/-! Cutting text at characters of a class, and putting the pieces back together. -/
namespace OnchainSchema.Text

section Pieces

-- The units of the text: characters, or the bytes of a path.
variable {α : Type}

/-- The pieces between the units that satisfy `p`, empty ones included. -/
def pieces (p : α → Bool) : List α → List (List α)
  | [] => [[]]
  | c :: cs => if p c then [] :: pieces p cs else (pieces p cs).modifyHead (c :: ·)

theorem pieces_ne_nil (p : α → Bool) (cs : List α) : pieces p cs ≠ [] := by
  induction cs with
  | nil => simp [pieces]
  | cons c cs ih => by_cases h : p c <;> simp [pieces, h, ih]

theorem pieces_of_forall_not {p : α → Bool} {cs : List α} (h : ∀ c ∈ cs, p c = false) :
    pieces p cs = [cs] := by
  induction cs with
  | nil => rfl
  | cons c cs ih =>
    simp [pieces, h c (by simp), ih fun x hx => h x (List.mem_cons_of_mem _ hx)]

/-- No piece holds a separator. -/
theorem not_of_mem_pieces {p : α → Bool} {cs piece : List α} (h : piece ∈ pieces p cs) :
    ∀ c ∈ piece, p c = false := by
  induction cs generalizing piece with
  | nil => simp_all [pieces]
  | cons c cs ih =>
    by_cases hc : p c
    · simp only [pieces, hc, ↓reduceIte, List.mem_cons] at h
      rcases h with rfl | h
      · simp
      · exact ih h
    · simp only [pieces, hc, Bool.false_eq_true, ↓reduceIte] at h
      cases hp : pieces p cs with
      | nil => exact absurd hp (pieces_ne_nil p cs)
      | cons head tail =>
        rw [hp] at h ih
        simp only [List.modifyHead_cons, List.mem_cons] at h
        rcases h with rfl | h
        · intro x hx
          rcases List.mem_cons.mp hx with rfl | hx
          · simpa using hc
          · exact ih (by simp) x hx
        · exact ih (by simp [h])

theorem mem_of_mem_pieces {p : α → Bool} {cs piece : List α} (h : piece ∈ pieces p cs) :
    ∀ c ∈ piece, c ∈ cs := by
  induction cs generalizing piece with
  | nil => simp_all [pieces]
  | cons c cs ih =>
    intro x hx
    by_cases hc : p c
    · simp only [pieces, hc, ↓reduceIte, List.mem_cons] at h
      rcases h with rfl | h
      · simp at hx
      · exact List.mem_cons_of_mem _ (ih h x hx)
    · simp only [pieces, hc, Bool.false_eq_true, ↓reduceIte] at h
      cases hp : pieces p cs with
      | nil => exact absurd hp (pieces_ne_nil p cs)
      | cons head tail =>
        rw [hp] at h ih
        rcases List.mem_cons.mp h with rfl | h
        · rcases List.mem_cons.mp hx with rfl | hx
          · simp
          · exact List.mem_cons_of_mem _ (ih (by simp) x hx)
        · exact List.mem_cons_of_mem _ (ih (by simp [h]) x hx)

/-- Cutting at one unit and joining with it gives the text back. -/
theorem intercalate_pieces [DecidableEq α] (sep : α) (cs : List α) :
    List.intercalate [sep] (pieces (· == sep) cs) = cs := by
  induction cs with
  | nil => simp [pieces, List.intercalate]
  | cons c cs ih =>
    cases hp : pieces (· == sep) cs with
    | nil => exact absurd hp (pieces_ne_nil _ cs)
    | cons head tail =>
      rw [hp] at ih
      by_cases hc : c = sep
      · subst hc
        simpa [pieces, hp, List.intercalate, List.intersperse] using ih
      · cases tail with
        | nil => simpa [pieces, hp, hc, List.intercalate] using ih
        | cons second rest =>
          simpa [pieces, hp, hc, List.intercalate, List.intersperse] using ih

/-- A separator after the text starts a piece of its own. -/
theorem pieces_append_sep (p : α → Bool) (cs rest : List α) {sep : α} (hs : p sep = true) :
    pieces p (cs ++ sep :: rest) = pieces p cs ++ pieces p rest := by
  induction cs with
  | nil => simp [pieces, hs]
  | cons c cs ih =>
    by_cases hc : p c
    · simp [pieces, hc, ih]
    · simp only [List.cons_append, pieces, hc, Bool.false_eq_true, ↓reduceIte, ih]
      cases hp : pieces p cs with
      | nil => exact absurd hp (pieces_ne_nil p cs)
      | cons head tail => simp

/-- Units that are no separators lengthen the first piece. -/
theorem pieces_append_of_forall_not {p : α → Bool} {cs : List α} (h : ∀ c ∈ cs, p c = false)
    (rest : List α) : pieces p (cs ++ rest) = (pieces p rest).modifyHead (cs ++ ·) := by
  induction cs with
  | nil => cases hp : pieces p rest <;> simp [hp]
  | cons c cs ih =>
    have hc : p c = false := h c (by simp)
    rw [List.cons_append, pieces, hc, ih fun x hx => h x (List.mem_cons_of_mem _ hx)]
    cases pieces p rest <;> simp

theorem beq_eq_false_of_notMem [DecidableEq α] {sep : α} {cs : List α} (h : sep ∉ cs) :
    ∀ c ∈ cs, (c == sep) = false := by
  intro c hc
  rw [beq_eq_false_iff_ne]
  rintro rfl
  exact h hc

/-- Writing each unit anew, the separator as one and no other unit with it, does the same to each
piece. -/
theorem pieces_flatMap {β : Type} [DecidableEq α] [DecidableEq β] {sep : α} {sep' : β}
    {f : α → List β} (hsep : f sep = [sep']) (hother : ∀ c, sep' ∈ f c → c = sep) (cs : List α) :
    pieces (· == sep') (cs.flatMap f) = (pieces (· == sep) cs).map (·.flatMap f) := by
  induction cs with
  | nil => rfl
  | cons c cs ih =>
    rw [List.flatMap_cons]
    by_cases hc : c = sep
    · rw [hc, hsep, List.singleton_append, pieces, pieces, ih]
      simp
    · have hfree := beq_eq_false_of_notMem (mt (hother c) hc)
      rw [pieces_append_of_forall_not hfree, ih, pieces, if_neg (by simpa using hc)]
      cases pieces (· == sep) cs <;> simp

/-- Pieces without the separator are cut again where they were joined. -/
theorem pieces_intercalate [DecidableEq α] {sep : α} {w : List α} {ws : List (List α)}
    (h : ∀ v ∈ w :: ws, sep ∉ v) :
    pieces (· == sep) (List.intercalate [sep] (w :: ws)) = w :: ws := by
  induction ws generalizing w with
  | nil =>
    rw [List.intercalate_singleton, pieces_of_forall_not]
    exact beq_eq_false_of_notMem (h w (by simp))
  | cons v ws ih =>
    have hw := beq_eq_false_of_notMem (h w (by simp))
    rw [List.intercalate_cons_cons, List.append_assoc, List.singleton_append,
      pieces_append_sep _ _ _ (by simp), pieces_of_forall_not hw,
      ih fun u hu => h u (List.mem_cons_of_mem _ hu)]
    rfl

/-- The leading units of a class are followed by nothing or by one that is not of the class. -/
theorem takeWhile_dropWhile_iff {p : α → Bool} {cs lead rest : List α} :
    cs.takeWhile p = lead ∧ cs.dropWhile p = rest ↔
      cs = lead ++ rest ∧ (∀ c ∈ lead, p c = true) ∧ ∀ c ∈ rest.head?, p c = false := by
  constructor
  · rintro ⟨rfl, rfl⟩
    refine ⟨List.takeWhile_append_dropWhile.symm, List.all_eq_true.mp List.all_takeWhile, ?_⟩
    intro c hc
    have hfirst := List.head?_dropWhile_not p cs
    rw [hc] at hfirst
    simpa using hfirst
  · rintro ⟨rfl, hlead, hrest⟩
    rw [List.takeWhile_append_of_pos hlead, List.dropWhile_append_of_pos hlead]
    cases rest with
    | nil => simp
    | cons c rest => simp [hrest c rfl]

theorem dropWhile_eq_iff {p : α → Bool} {cs rest : List α} :
    cs.dropWhile p = rest ↔
      ∃ lead, cs = lead ++ rest ∧ (∀ c ∈ lead, p c = true) ∧ ∀ c ∈ rest.head?, p c = false := by
  simp only [← takeWhile_dropWhile_iff, exists_eq_left']

end Pieces

/-- The pieces of `s` between occurrences of `sep`. -/
def split (sep : Char) (s : String) : List String :=
  (pieces (· == sep) s.toList).map String.ofList

theorem split_ne_nil (sep : Char) (s : String) : split sep s ≠ [] := by
  rw [split, ne_eq, List.map_eq_nil_iff]
  exact pieces_ne_nil _ _

theorem mem_of_mem_split {sep : Char} {s piece : String} (h : piece ∈ split sep s) :
    ∀ c ∈ piece.toList, c ≠ sep ∧ c ∈ s.toList := by
  obtain ⟨p, hp, rfl⟩ := List.mem_map.mp h
  intro c hc
  rw [String.toList_ofList] at hc
  exact ⟨by simpa using not_of_mem_pieces hp c hc, mem_of_mem_pieces hp c hc⟩

/-- The texts with `sep` between neighbours. -/
def join (sep : String) (ss : List String) : String :=
  String.ofList (List.intercalate sep.toList (ss.map String.toList))

@[simp] theorem toList_join (sep : String) (ss : List String) :
    (join sep ss).toList = List.intercalate sep.toList (ss.map String.toList) := by
  simp [join]

theorem exists_append_of_join (sep s : String) (ss : List String) :
    ∃ rest, (join sep (s :: ss)).toList = s.toList ++ rest := by
  rw [toList_join, List.map_cons]
  cases ss with
  | nil => exact ⟨[], by rw [List.map_nil, List.intercalate_singleton, List.append_nil]⟩
  | cons t ts =>
    rw [List.map_cons, List.intercalate_cons_cons, List.append_assoc]
    exact ⟨_, rfl⟩

/-- The pieces of a text are the texts without the separator that join to it. -/
theorem split_eq_iff {sep : Char} {s : String} {ps : List String} :
    split sep s = ps ↔
      ps ≠ [] ∧ (∀ p ∈ ps, sep ∉ p.toList) ∧ join (String.singleton sep) ps = s := by
  constructor
  · rintro rfl
    refine ⟨split_ne_nil sep s, fun p hp hsep => (mem_of_mem_split hp sep hsep).1 rfl, ?_⟩
    rw [← String.toList_inj, toList_join, split, List.map_map]
    simpa [Function.comp_def] using intercalate_pieces sep s.toList
  · rintro ⟨hne, hfree, rfl⟩
    obtain ⟨p, ps, rfl⟩ := List.exists_cons_of_ne_nil hne
    rw [split, toList_join, String.toList_singleton, List.map_cons, pieces_intercalate]
    · simp [Function.comp_def]
    · intro v hv
      rw [← List.map_cons (f := String.toList)] at hv
      obtain ⟨q, hq, rfl⟩ := List.mem_map.mp hv
      exact hfree q hq

/-- The text before the first `sep` and the text from it on. -/
def cutBefore (sep : Char) (s : String) : String × String :=
  (String.ofList (s.toList.takeWhile (· != sep)), String.ofList (s.toList.dropWhile (· != sep)))

/-- A text is cut into a part without the separator and a part that is empty or begins with it. -/
theorem cutBefore_eq_iff {sep : Char} {s before after : String} :
    cutBefore sep s = (before, after) ↔
      s = before ++ after ∧ sep ∉ before.toList ∧ ∀ c ∈ after.toList.head?, c = sep := by
  have hchars : cutBefore sep s = (before, after) ↔
      s.toList.takeWhile (· != sep) = before.toList ∧
        s.toList.dropWhile (· != sep) = after.toList := by
    rw [cutBefore, Prod.mk.injEq, ← String.toList_inj, ← String.toList_inj, String.toList_ofList,
      String.toList_ofList]
  have hfree : (∀ c ∈ before.toList, (c != sep) = true) ↔ sep ∉ before.toList := by
    simp only [bne_iff_ne]
    exact ⟨fun h hsep => h sep hsep rfl, fun h c hc heq => h (heq ▸ hc)⟩
  rw [hchars, takeWhile_dropWhile_iff, hfree, ← String.toList_append, String.toList_inj]
  simp

def startsWith (head s : String) : Bool := head.toList.isPrefixOf s.toList

theorem startsWith_iff {head s : String} : startsWith head s ↔ ∃ rest, s = head ++ rest := by
  rw [startsWith, List.isPrefixOf_iff_prefix]
  constructor
  · rintro ⟨rest, hrest⟩
    refine ⟨String.ofList rest, ?_⟩
    rw [← String.toList_inj, String.toList_append, String.toList_ofList, hrest]
  · rintro ⟨rest, rfl⟩
    rw [String.toList_append]
    exact List.prefix_append _ _

end OnchainSchema.Text
