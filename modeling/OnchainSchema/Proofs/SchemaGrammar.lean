import Mathlib.Data.List.Forall2
import OnchainSchema.Proofs.SchemaCodec

/-!
The grammar of schema text. Text with something in it is read piece by piece between its commas, and
a piece is a type and a name with blanks around them; the first piece that is not decides the fault.
What is read can be written and read again.
-/
namespace OnchainSchema.SchemaText

open Text

/-- The pieces of a text between its commas. -/
def CutAtCommas (s : String) (pieces : List String) : Prop :=
  pieces ≠ [] ∧ (∀ piece ∈ pieces, ',' ∉ piece.toList) ∧ Text.join "," pieces = s

/-- What is wrong with a piece that spells no field. -/
inductive Faulty (piece : String) : Fault → Prop
  | malformed {trimmed : String} (hwords : ∀ first second, ¬ TwoWords piece first second)
      (htrimmed : Trimmed piece trimmed) : Faulty piece (.malformedField trimmed)
  | unknown {type name : String} (hwords : TwoWords piece type name)
      (htype : ∀ t : AbiType, type ≠ t.text) : Faulty piece (.unknownType type)

/-- What schema text stands for: its fields, or the fault of the first piece that has one. -/
inductive Reads (s : String) : Except Fault (List Field) → Prop
  | blank (hs : isBlankText s) : Reads s (.ok [])
  | fields {pieces : List String} {fields : List Field} (hs : ¬ isBlankText s)
      (hcut : CutAtCommas s pieces) (hpieces : List.Forall₂ Spells pieces fields) :
      Reads s (.ok fields)
  | fault {before after : List String} {piece : String} {fault : Fault} (hs : ¬ isBlankText s)
      (hcut : CutAtCommas s (before ++ piece :: after)) (hbefore : ∀ p ∈ before, ∃ f, Spells p f)
      (hpiece : Faulty piece fault) : Reads s (.error fault)

theorem split_comma_eq_iff {s : String} {pieces : List String} :
    split ',' s = pieces ↔ CutAtCommas s pieces := split_eq_iff

theorem parseType_eq_error_iff {type : String} {fault : Fault} :
    parseType type = .error fault ↔ fault = .unknownType type ∧ ∀ t : AbiType, type ≠ t.text := by
  unfold parseType
  cases htype : AbiType.ofText? type with
  | some t =>
    refine iff_of_false (by simp) fun h => h.2 t ?_
    exact AbiType.ofText?_eq_some_iff.mp htype
  | none =>
    have hnone (t : AbiType) : type ≠ t.text := by
      rintro rfl
      simp at htype
    simp [hnone, eq_comm]

theorem parsePiece_eq_error_iff {piece : String} {fault : Fault} :
    parsePiece piece = .error fault ↔ Faulty piece fault := by
  constructor
  · intro h
    unfold parsePiece at h
    split at h
    next type name hwords =>
      cases htype : parseType type with
      | ok t =>
        rw [htype] at h
        cases h
      | error fault' =>
        rw [htype] at h
        obtain rfl : fault' = fault := Except.error.inj h
        obtain ⟨rfl, hunknown⟩ := parseType_eq_error_iff.mp htype
        exact .unknown (words_eq_pair_iff.mp hwords) hunknown
    next hwords =>
      obtain rfl := Except.error.inj h
      refine .malformed (fun first second hpair => ?_) (trim_eq_iff.mp rfl)
      exact hwords first second (words_eq_pair_iff.mpr hpair)
  · intro h
    cases h with
    | malformed hwords htrimmed =>
      unfold parsePiece
      split
      next type name hpair => exact absurd (words_eq_pair_iff.mp hpair) (hwords type name)
      next => rw [trim_eq_iff.mpr htrimmed]
    | unknown hwords htype =>
      rw [parsePiece, words_eq_pair_iff.mpr hwords]
      dsimp only
      rw [parseType_eq_error_iff.mpr ⟨rfl, htype⟩]
      rfl

/-- Reading ends at the first piece that has a fault. -/
theorem parsePieces_eq_error_iff {ps : List String} {fault : Fault} :
    parsePieces ps = .error fault ↔ ∃ before piece after, ps = before ++ piece :: after ∧
      (∀ p ∈ before, ∃ f, parsePiece p = .ok f) ∧ parsePiece piece = .error fault := by
  constructor
  · intro h
    induction ps with
    | nil => cases h
    | cons p ps ih =>
      cases hp : parsePiece p with
      | error fault' =>
        simp only [parsePieces, hp, Except.error.injEq] at h
        exact ⟨[], p, ps, rfl, by simp, h ▸ hp⟩
      | ok f =>
        cases hps : parsePieces ps with
        | ok fs => simp [parsePieces, hp, hps] at h
        | error fault' =>
          simp only [parsePieces, hp, hps, Except.error.injEq] at h
          obtain ⟨before, piece, after, rfl, hbefore, hpiece⟩ := ih (h ▸ hps)
          refine ⟨p :: before, piece, after, rfl, ?_, hpiece⟩
          exact List.forall_mem_cons.mpr ⟨⟨f, hp⟩, hbefore⟩
  · rintro ⟨before, piece, after, rfl, hbefore, hpiece⟩
    induction before with
    | nil => simp [parsePieces, hpiece]
    | cons p before ih =>
      rw [List.forall_mem_cons] at hbefore
      obtain ⟨f, hp⟩ := hbefore.1
      simp [parsePieces, hp, ih hbefore.2]

theorem parsePieces_eq_ok_iff_forall₂ {ps : List String} {fs : List Field} :
    parsePieces ps = .ok fs ↔ List.Forall₂ Spells ps fs := by
  rw [parsePieces_eq_ok_iff, ← List.forall₂_eq_eq_eq, List.forall₂_map_left_iff,
    List.forall₂_map_right_iff]
  simp only [parsePiece_eq_ok_iff]

theorem reads_of_blank {s : String} {result : Except Fault (List Field)} (hs : isBlankText s) :
    Reads s result ↔ result = .ok [] := by
  constructor
  · intro h
    cases h with
    | blank => rfl
    | fields hs' => exact absurd hs hs'
    | fault hs' => exact absurd hs hs'
  · rintro rfl
    exact .blank hs

theorem reads_iff_parsePieces {s : String} {result : Except Fault (List Field)}
    (hs : ¬ isBlankText s) : Reads s result ↔ parsePieces (split ',' s) = result := by
  constructor
  · intro h
    cases h with
    | blank hs' => exact absurd hs' hs
    | fields _ hcut hpieces =>
      rw [split_comma_eq_iff.mpr hcut]
      exact parsePieces_eq_ok_iff_forall₂.mpr hpieces
    | fault _ hcut hbefore hpiece =>
      rw [split_comma_eq_iff.mpr hcut, parsePieces_eq_error_iff]
      simp only [parsePiece_eq_ok_iff, parsePiece_eq_error_iff]
      exact ⟨_, _, _, rfl, hbefore, hpiece⟩
  · rintro rfl
    have hcut := split_comma_eq_iff.mp (Eq.refl (split ',' s))
    cases h : parsePieces (split ',' s) with
    | ok fs => exact .fields hs hcut (parsePieces_eq_ok_iff_forall₂.mp h)
    | error fault =>
      obtain ⟨before, piece, after, hpieces, hbefore, hpiece⟩ := parsePieces_eq_error_iff.mp h
      rw [hpieces] at hcut
      simp only [parsePiece_eq_ok_iff, parsePiece_eq_error_iff] at hbefore hpiece
      exact .fault hs hcut hbefore hpiece

/-- Schema text is read by its grammar, and what is read can be written and read again. -/
theorem parse_follows_grammar (s : String) :
    (∀ result, parse s = result ↔ Reads s result) ∧
    ∀ fs, parse s = .ok fs → parse (join fs) = .ok fs := by
  refine ⟨fun result => ?_, fun fs h => parse_join (plain_of_parse h)⟩
  by_cases hs : isBlankText s
  · rw [reads_of_blank hs, parse, if_pos hs, eq_comm]
  · rw [reads_iff_parsePieces hs, parse, if_neg hs]

def spacedFields : List Field := [⟨⟨.uint256, true⟩, "scores"⟩, ⟨⟨.bool, false⟩, "ok"⟩]

/-- An ideographic space separates words like any other, and only the first fault is reported. -/
theorem spaced_fields_read :
    parse " uint256[]\u3000scores\t,bool ok" = .ok spacedFields ∧
    join spacedFields = "uint256[] scores, bool ok" ∧
    parse (join spacedFields) = .ok spacedFields ∧
    Reads "bool ok,uint8 score, ,string" (.error (.unknownType "uint8")) := by
  have hparse : parse " uint256[]\u3000scores\t,bool ok" = .ok spacedFields := by rfl
  have hfault : parse "bool ok,uint8 score, ,string" = .error (.unknownType "uint8") := by rfl
  exact ⟨hparse, by decide, (parse_follows_grammar _).2 _ hparse,
    ((parse_follows_grammar _).1 _).mp hfault⟩

end OnchainSchema.SchemaText
