import Mathlib
import OnchainSchema.Lint.Report

/-!
Paths below a directory. Joining names to a path adds them to its components, so below one directory
paths are ordered as the names on the way are, and a path has the extension of its last name.
-/
namespace OnchainSchema

namespace OsText

theorem bytes_injective : Function.Injective bytes := fun _ _ h => congrArg mk h

instance : LinearOrder UInt8 where
  le_refl := UInt8.le_refl
  le_trans _ _ _ := UInt8.le_trans
  le_antisymm _ _ := UInt8.le_antisymm
  le_total := UInt8.le_total
  lt_iff_le_not_ge a b := by
    rw [UInt8.lt_iff_toNat_lt, UInt8.le_iff_toNat_le, UInt8.le_iff_toNat_le,
      Nat.lt_iff_le_and_not_ge]
  toDecidableLE := inferInstance

instance : LinearOrder OsText where
  le s t := s.bytes ≤ t.bytes
  lt := (· < ·)
  le_refl s := le_refl s.bytes
  le_trans _ _ _ := le_trans
  le_antisymm _ _ h h' := bytes_injective (le_antisymm h h')
  le_total s t := le_total s.bytes t.bytes
  lt_iff_le_not_ge s t := lt_iff_le_not_ge (a := s.bytes) (b := t.bytes)
  toDecidableLE s t := inferInstanceAs (Decidable (s.bytes ≤ t.bytes))

end OsText

namespace Path

/-- What an entry of a directory can be called. -/
structure ProperName (name : OsText) : Prop where
  ne_empty : name ≠ ""
  ne_here : name ≠ "."
  ne_up : name ≠ ".."
  slash_notMem : slash ∉ name.bytes

instance (name : OsText) : Decidable (ProperName name) :=
  decidable_of_iff (name ≠ "" ∧ name ≠ "." ∧ name ≠ ".." ∧ slash ∉ name.bytes)
    ⟨fun ⟨hempty, hhere, hup, hslash⟩ => ⟨hempty, hhere, hup, hslash⟩,
      fun h => ⟨h.ne_empty, h.ne_here, h.ne_up, h.slash_notMem⟩⟩

/-- The path of what stands below a directory at the end of a chain of names. -/
def along (dir : Path) (names : List OsText) : Path := names.foldl join dir

@[simp] theorem along_nil (dir : Path) : dir.along [] = dir := rfl

@[simp] theorem along_cons (dir : Path) (name : OsText) (names : List OsText) :
    dir.along (name :: names) = (dir.join name).along names := rfl

theorem along_append (dir : Path) (names names' : List OsText) :
    dir.along (names ++ names') = (dir.along names).along names' := List.foldl_append ..

section Components

variable {p base : Path} {name first : OsText} {rest : List OsText}

theorem ProperName.innerComponent (h : ProperName name) :
    innerComponent name = some (.name name) := by
  simp [Path.innerComponent, h.ne_empty, h.ne_here, h.ne_up]

theorem ProperName.isAbsolute (h : ProperName name) : (Path.mk name).isAbsolute = false := by
  rw [Path.isAbsolute, decide_eq_false_iff_not]
  intro hhead
  exact h.slash_notMem (List.mem_of_head? hhead)

/-- How a joined path is spelled: a slash comes between, unless there is one. -/
theorem join_cases (h : ProperName name) (hbase : base.raw ≠ "") :
    (∃ s : OsText, base.raw = s ++ "/" ∧ (base.join name).raw = s ++ "/" ++ name) ∨
      (base.join name).raw = base.raw ++ "/" ++ name := by
  rw [join, if_neg (by simp [h.isAbsolute, hbase])]
  split
  next hlast =>
    obtain ⟨bs, hbs⟩ := List.getLast?_eq_some_iff.mp hlast
    have hraw : base.raw = OsText.mk bs ++ "/" := OsText.bytes_injective hbs
    exact .inl ⟨_, hraw, by rw [hraw]⟩
  next => exact .inr rfl

theorem split_append_slash (s : OsText) (h : slash ∉ name.bytes) :
    (s ++ "/" ++ name).split slash = s.split slash ++ [name] := by
  rw [← OsText.split_of_notMem h]
  exact OsText.split_append_sep slash s name

theorem components_of_segments (h : p.segments = first :: rest) :
    p.components =
      (if first = "" then (if rest = [] then [] else [.root])
        else if first = "." then [.here] else (innerComponent first).toList) ++
      rest.filterMap innerComponent := by
  rw [components, h]

/-- A name is one more segment, in the place of an empty one at the end if there is one. -/
theorem segments_join (h : ProperName name) (hbase : base.raw ≠ "") :
    ∃ first rest, (base.join name).segments = first :: (rest ++ [name]) ∧
      (base.segments = first :: rest ∧ (first = "" → rest ≠ []) ∨
        base.segments = first :: (rest ++ [OsText.ofString ""])) := by
  rcases join_cases h hbase with ⟨s, hs, hjoin⟩ | hjoin
  · obtain ⟨first, rest, hsplit⟩ := List.exists_cons_of_ne_nil (OsText.split_ne_nil slash s)
    refine ⟨first, rest, ?_, .inr ?_⟩
    · rw [segments, hjoin, split_append_slash s h.slash_notMem, hsplit, List.cons_append]
    · have hslash : slash ∉ (OsText.ofString "").bytes := by decide
      rw [segments, hs, ← List.cons_append, ← hsplit, ← split_append_slash s hslash]
      exact congrArg _ (OsText.bytes_injective (List.append_nil _).symm)
  · obtain ⟨first, rest, hsplit⟩ :=
      List.exists_cons_of_ne_nil (OsText.split_ne_nil slash base.raw)
    refine ⟨first, rest, ?_, .inl ⟨hsplit, ?_⟩⟩
    · rw [segments, hjoin, split_append_slash _ h.slash_notMem, hsplit, List.cons_append]
    · rintro rfl rfl
      refine hbase ?_
      rw [← OsText.join_split slash base.raw, hsplit]
      rfl

/-- A name is one more component. -/
theorem components_join (h : ProperName name) (hbase : base.raw ≠ "") :
    (base.join name).components = base.components ++ [.name name] := by
  obtain ⟨first, rest, hjoin, ⟨hsegments, hfirst⟩ | hsegments⟩ := segments_join h hbase
  · rw [components_of_segments hsegments, components_of_segments hjoin]
    by_cases hempty : first = ""
    · simp [hempty, hfirst hempty, h.innerComponent]
    · simp [hempty, h.innerComponent]
  · have hempty : innerComponent "" = none := rfl
    rw [components_of_segments hsegments, components_of_segments hjoin]
    simp [List.filterMap_append, h.innerComponent, hempty]

theorem isAbsolute_join (h : ProperName name) (hbase : base.raw ≠ "") :
    (base.join name).isAbsolute = base.isAbsolute := by
  have hbytes : base.raw.bytes ≠ [] := fun hnil => hbase (OsText.bytes_injective hnil)
  have hhead (rest : List UInt8) : (base.raw.bytes ++ rest).head? = base.raw.bytes.head? :=
    List.head?_append_of_ne_nil _ hbytes
  rw [isAbsolute, isAbsolute]
  rcases join_cases h hbase with ⟨s, hs, hjoin⟩ | hjoin
  · rw [hjoin, ← hs, OsText.bytes_append, hhead]
  · rw [hjoin, OsText.bytes_append, OsText.bytes_append, List.append_assoc, hhead]

theorem raw_join_ne_empty (h : ProperName name) (hbase : base.raw ≠ "") :
    (base.join name).raw ≠ "" := by
  intro hempty
  have hbytes : name.bytes = [] := by
    have hnil : (base.join name).raw.bytes = [] := congrArg OsText.bytes hempty
    rcases join_cases h hbase with ⟨s, -, hjoin⟩ | hjoin <;>
    · rw [hjoin] at hnil
      exact (List.append_eq_nil_iff.mp hnil).2
  exact h.ne_empty (OsText.bytes_injective hbytes)

theorem size_le_join (h : ProperName name) (hbase : base.raw ≠ "") :
    base.raw.size ≤ (base.join name).raw.size := by
  rcases join_cases h hbase with ⟨s, hs, hjoin⟩ | hjoin
  · rw [hjoin, hs]
    simp only [OsText.size_append]
    omega
  · rw [hjoin]
    simp only [OsText.size_append]
    omega

end Components

section Along

variable {dir : Path} {names names' : List OsText}

theorem raw_along_ne_empty (h : ∀ name ∈ names, ProperName name) (hdir : dir.raw ≠ "") :
    (dir.along names).raw ≠ "" := by
  induction names generalizing dir with
  | nil => exact hdir
  | cons name names ih =>
    obtain ⟨hname, hnames⟩ := List.forall_mem_cons.mp h
    exact ih hnames (raw_join_ne_empty hname hdir)

theorem size_le_along (h : ∀ name ∈ names, ProperName name) (hdir : dir.raw ≠ "") :
    dir.raw.size ≤ (dir.along names).raw.size := by
  induction names generalizing dir with
  | nil => exact le_rfl
  | cons name names ih =>
    obtain ⟨hname, hnames⟩ := List.forall_mem_cons.mp h
    exact (size_le_join hname hdir).trans (ih hnames (raw_join_ne_empty hname hdir))

theorem components_along (h : ∀ name ∈ names, ProperName name) (hdir : dir.raw ≠ "") :
    (dir.along names).components = dir.components ++ names.map .name := by
  induction names generalizing dir with
  | nil => simp
  | cons name names ih =>
    obtain ⟨hname, hnames⟩ := List.forall_mem_cons.mp h
    rw [along_cons, ih hnames (raw_join_ne_empty hname hdir), components_join hname hdir]
    simp

theorem componentsLe_append (cs as bs : List Component) :
    componentsLe (cs ++ as) (cs ++ bs) = componentsLe as bs := by
  induction cs with
  | nil => rfl
  | cons c cs ih => rw [List.cons_append, List.cons_append, componentsLe, if_pos rfl, ih]

/-- Names are compared one by one. -/
theorem componentsLe_names (names names' : List OsText) :
    componentsLe (names.map .name) (names'.map .name) = decide (¬ names' < names) := by
  induction names generalizing names' with
  | nil => simp [componentsLe]
  | cons name names ih =>
    cases names' with
    | nil => simp [componentsLe]
    | cons name' names' =>
      rw [List.map_cons, List.map_cons, componentsLe]
      by_cases hname : name = name'
      · simp [hname, ih]
      · have hbefore : (Component.name name).before (.name name') = decide (name < name') := rfl
        have horder : ¬ name' :: names' < name :: names ↔ name < name' := by
          rw [List.cons_lt_cons_iff, or_iff_left (by simp [Ne.symm hname]), not_lt]
          exact ⟨fun h => lt_of_le_of_ne h hname, le_of_lt⟩
        rw [if_neg (by simpa using hname), hbefore, decide_eq_decide, horder]

/-- Below one directory, paths are in the order of the names on the way. -/
theorem le_along (h : ∀ name ∈ names, ProperName name) (h' : ∀ name ∈ names', ProperName name)
    (hdir : dir.raw ≠ "") :
    Path.le (dir.along names) (dir.along names') = decide (¬ names' < names) := by
  rw [Path.le, components_along h hdir, components_along h' hdir, componentsLe_append,
    componentsLe_names]

theorem name?_along {name : OsText} (h : ∀ other ∈ names ++ [name], ProperName other)
    (hdir : dir.raw ≠ "") : (dir.along (names ++ [name])).name? = some name := by
  rw [name?, components_along h hdir]
  simp

end Along

/-- A name has an extension if something stands before its last dot. -/
theorem extension?_eq_json_iff {p : Path} {name : OsText} (h : p.name? = some name) :
    p.extension? = some (OsText.ofString "json") ↔
      ∃ stem : OsText, stem ≠ "" ∧ name = stem ++ ".json" := by
  let json : List UInt8 := (OsText.ofString "json").bytes
  have hdotjson : (OsText.ofString ".json").bytes = dot :: json := by decide
  have hextension : p.extension? =
      let ext := (name.bytes.reverse.takeWhile (· != dot)).reverse
      if ext.length + 1 < name.bytes.length then some ⟨ext⟩ else none := by
    rw [extension?, h]
    rfl
  rw [hextension]
  constructor
  · intro hjson
    dsimp only at hjson
    split at hjson
    next hlength =>
      have hext : (name.bytes.reverse.takeWhile (· != dot)).reverse = json :=
        congrArg OsText.bytes (Option.some.inj hjson)
      obtain ⟨hbytes, -, hdot⟩ :=
        Text.takeWhile_dropWhile_iff.mp ⟨List.reverse_eq_iff.mp hext, rfl⟩
      -- what stands before the extension, from the last byte back
      cases hrest : name.bytes.reverse.dropWhile (· != dot) with
      | nil =>
        rw [hrest, List.append_nil, List.reverse_inj] at hbytes
        rw [hext, hbytes] at hlength
        exact absurd hlength (by decide)
      | cons b stem =>
        rw [hrest] at hbytes hdot
        obtain rfl : b = dot := by simpa using hdot b rfl
        have hname : name.bytes = stem.reverse ++ dot :: json := by
          rw [← List.reverse_inj, hbytes]
          simp
        refine ⟨⟨stem.reverse⟩, ?_, OsText.bytes_injective (by rw [hname, ← hdotjson]; rfl)⟩
        intro hstem
        have hnil : stem.reverse = [] := congrArg OsText.bytes hstem
        rw [hext, hname, hnil] at hlength
        exact absurd hlength (by decide)
    next => cases hjson
  · rintro ⟨stem, hstem, rfl⟩
    have hbytes : (stem ++ OsText.ofString ".json").bytes.reverse =
        json.reverse ++ dot :: stem.bytes.reverse := by
      rw [OsText.bytes_append, hdotjson]
      simp
    have hlead : (stem ++ OsText.ofString ".json").bytes.reverse.takeWhile (· != dot) =
        json.reverse :=
      (Text.takeWhile_dropWhile_iff.mpr ⟨hbytes, by decide +kernel, by simp⟩).1
    have hlength : 0 < stem.bytes.length :=
      List.length_pos_iff.mpr fun hnil => hstem (OsText.bytes_injective hnil)
    dsimp only
    rw [hlead, List.reverse_reverse, OsText.bytes_append, hdotjson, List.length_append,
      List.length_cons]
    refine if_pos ?_
    omega

end Path

end OnchainSchema
