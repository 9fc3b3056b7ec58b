import OnchainSchema.Abi.SchemaText

/-!
Schema text as a code for lists of fields. It is read back as written exactly if every name is
plain: a name with a comma or a blank, or an empty one, is cut by the reader.
-/
namespace OnchainSchema

namespace Text

/-- A comma and a space between texts are a comma before all but the first, which begin with the
space. -/
theorem join_comma_space (s : String) (ss : List String) :
    join ", " (s :: ss) = join "," (s :: ss.map (" " ++ ·)) := by
  rw [← String.toList_inj, toList_join, toList_join]
  induction ss generalizing s with
  | nil => rfl
  | cons v ss ih =>
    have hrest := ih v
    have hspace : (" " ++ v).toList = ' ' :: v.toList := by simp
    simp only [List.map_cons] at hrest ⊢
    rw [List.intercalate_cons_cons, List.intercalate_cons_cons, hrest, hspace,
      List.intercalate_cons_cons_left]
    simp

end Text

namespace SchemaText

/-- Text that neither the commas nor the blanks of schema text can cut. -/
def Plain (s : String) : Prop := s ≠ "" ∧ ∀ c ∈ s.toList, c ≠ ',' ∧ Text.isBlank c = false

instance (s : String) : Decidable (Plain s) :=
  decidable_of_iff (s ≠ "" ∧ s.toList.all (fun c => c != ',' && !Text.isBlank c)) (by simp [Plain])

theorem plain_typeText (t : AbiType) : Plain t.text := by
  obtain ⟨s, a⟩ := t
  cases s <;> cases a <;> decide

theorem Plain.isWord {s : String} (h : Plain s) : Text.IsWord s.toList :=
  ⟨by simpa using h.1, fun c hc => (h.2 c hc).2⟩

/-- A piece that is the type and the name of a field. -/
def Spells (piece : String) (f : Field) : Prop := Text.TwoWords piece f.type.text f.name

theorem spells_text {f : Field} (h : Plain f.name) (lead : String) (hlead : Text.isBlankText lead) :
    Spells (lead ++ f.text) f := by
  refine ⟨lead, " ", "", ?_, (plain_typeText f.type).isWord, h.isWord, hlead, by decide, by decide,
    by decide⟩
  simp [Field.text, String.append_assoc]

theorem comma_notMem_fieldText {f : Field} (h : Plain f.name) : ',' ∉ f.text.toList := by
  have htype : ',' ∉ f.type.text.toList := fun hc => ((plain_typeText f.type).2 _ hc).1 rfl
  have hname : ',' ∉ f.name.toList := fun hc => (h.2 _ hc).1 rfl
  simp [Field.text, htype, hname]

/-- What stands between two commas, taken as words, is plain. -/
theorem plain_of_mem_words {s piece w : String} (hp : piece ∈ Text.split ',' s)
    (hw : w ∈ Text.words piece) : Plain w := by
  obtain ⟨hne, hchars⟩ := Text.mem_of_mem_words hw
  refine ⟨hne, fun c hc => ?_⟩
  obtain ⟨hblank, hc⟩ := hchars c hc
  exact ⟨(Text.mem_of_mem_split hp c hc).1, hblank⟩

theorem parsePiece_eq_ok_iff {piece : String} {f : Field} :
    parsePiece piece = .ok f ↔ Spells piece f := by
  rw [Spells, ← Text.words_eq_pair_iff]
  unfold parsePiece
  constructor
  · intro h
    split at h
    next type name hw =>
      unfold parseType at h
      split at h
      next t ht =>
        obtain rfl := Except.ok.inj h
        rw [hw, AbiType.ofText?_eq_some_iff.mp ht]
      next => cases h
    next => cases h
  · intro h
    rw [h]
    simp only [parseType, AbiType.ofText?_text]
    rfl

theorem parsePieces_eq_ok_iff {ps : List String} {fs : List Field} :
    parsePieces ps = .ok fs ↔ ps.map parsePiece = fs.map .ok := by
  induction ps generalizing fs with
  | nil => cases fs <;> simp [parsePieces]
  | cons p ps ih =>
    cases hp : parsePiece p with
    | error e => cases fs <;> simp [parsePieces, hp]
    | ok f =>
      cases hps : parsePieces ps with
      | error e =>
        cases fs with
        | nil => simp [parsePieces, hp, hps]
        | cons g gs =>
          have hne : ps.map parsePiece ≠ gs.map .ok := fun h => by simp [ih.mpr h] at hps
          simp [parsePieces, hp, hps, hne]
      | ok fs' =>
        have hmap := ih.mp hps
        cases fs with
        | nil => simp [parsePieces, hp, hps]
        | cons g gs =>
          simp only [parsePieces, hp, hps, List.map_cons, hmap, Except.ok.injEq, List.cons.injEq]
          rw [List.map_inj_right (fun _ _ => Except.ok.inj)]

/-- Whatever schema text is read from, the names read are plain. -/
theorem plain_of_parse {s : String} {fs : List Field} (h : parse s = .ok fs) :
    ∀ f ∈ fs, Plain f.name := by
  intro f hf
  unfold parse at h
  split at h
  · obtain rfl := Except.ok.inj h
    simp at hf
  · have hmem : Except.ok f ∈ (Text.split ',' s).map parsePiece := by
      rw [parsePieces_eq_ok_iff.mp h]
      exact List.mem_map_of_mem hf
    obtain ⟨piece, hp, hok⟩ := List.mem_map.mp hmem
    have hwords := Text.words_eq_pair_iff.mpr (parsePiece_eq_ok_iff.mp hok)
    exact plain_of_mem_words hp (by rw [hwords]; simp)

theorem split_join {f : Field} {fs : List Field} (h : ∀ g ∈ f :: fs, Plain g.name) :
    Text.split ',' (join (f :: fs)) = f.text :: fs.map fun g => " " ++ g.text := by
  have hcommas : ∀ g ∈ f :: fs, ',' ∉ g.text.toList := fun g hg => comma_notMem_fieldText (h g hg)
  rw [List.forall_mem_cons] at hcommas
  rw [Text.split_eq_iff]
  refine ⟨by simp, ?_, ?_⟩
  · simpa using hcommas
  · rw [join, List.map_cons, Text.join_comma_space, List.map_map]
    rfl

/-- Fields with plain names are read back from their text. -/
theorem parse_join {fs : List Field} (h : ∀ f ∈ fs, Plain f.name) : parse (join fs) = .ok fs := by
  cases fs with
  | nil => rfl
  | cons f fs =>
    have hmap : (Text.split ',' (join (f :: fs))).map parsePiece = (f :: fs).map .ok := by
      have hpiece (g : Field) (hg : g ∈ f :: fs) (lead : String) (hlead : Text.isBlankText lead) :
          parsePiece (lead ++ g.text) = .ok g :=
        parsePiece_eq_ok_iff.mpr (spells_text (h g hg) lead hlead)
      have hfirst := hpiece f (by simp) "" (by decide)
      rw [String.empty_append] at hfirst
      have hrest : ∀ g ∈ fs, parsePiece (" " ++ g.text) = .ok g := fun g hg =>
        hpiece g (List.mem_cons_of_mem _ hg) " " (by decide)
      rw [split_join h, List.map_cons, List.map_map, List.map_cons, hfirst]
      exact congrArg _ (List.map_congr_left hrest)
    have hblank : Text.isBlankText (join (f :: fs)) = false := by
      obtain ⟨hne, hname⟩ := h f (by simp)
      obtain ⟨c, cs, hc⟩ := List.exists_cons_of_ne_nil (show f.name.toList ≠ [] by simpa using hne)
      have hfirst : f.text ∈ Text.split ',' (join (f :: fs)) := by
        rw [split_join h]
        simp
      have hmem : c ∈ (join (f :: fs)).toList :=
        (Text.mem_of_mem_split hfirst c (by simp [Field.text, hc])).2
      simp only [Text.isBlankText, List.all_eq_false]
      exact ⟨c, hmem, by simp [(hname c (by simp [hc])).2]⟩
    rw [parse, if_neg (by simp [hblank])]
    exact parsePieces_eq_ok_iff.mpr hmap

/-- A list of fields is read back from its text exactly if every name is plain. -/
theorem parse_join_eq_ok_iff (fs : List Field) :
    parse (join fs) = .ok fs ↔ ∀ f ∈ fs, Plain f.name :=
  ⟨plain_of_parse, parse_join⟩

end SchemaText

end OnchainSchema
