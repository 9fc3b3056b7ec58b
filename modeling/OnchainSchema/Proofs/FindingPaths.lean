import OnchainSchema.Proofs.LintTraversal

/-!
The paths of findings, read as pointers. A path is spelled from keys as they are, while a pointer is
read as one that escapes them: the two agree just where no key on the way needs an escape.
-/
namespace OnchainSchema

namespace Text

/-- A text is as long as its pieces and the separators between them. -/
theorem sum_length_pieces (p : Char → Bool) (cs : List Char) :
    ((pieces p cs).map List.length).sum + (pieces p cs).length = cs.length + 1 := by
  induction cs with
  | nil => rfl
  | cons c cs ih =>
    by_cases hc : p c
    · simp only [pieces, hc, ↓reduceIte, List.map_cons, List.sum_cons, List.length_cons,
        List.length_nil]
      omega
    · cases hp : pieces p cs with
      | nil => exact absurd hp (pieces_ne_nil p cs)
      | cons head tail =>
        rw [hp] at ih
        simp only [List.map_cons, List.sum_cons, List.length_cons] at ih
        simp only [pieces, hc, Bool.false_eq_true, ↓reduceIte, hp, List.modifyHead_cons,
          List.map_cons, List.sum_cons, List.length_cons]
        omega

theorem length_intercalate (sep : Char) {ws : List (List Char)} (h : ws ≠ []) :
    (List.intercalate [sep] ws).length + 1 = (ws.map List.length).sum + ws.length := by
  induction ws with
  | nil => exact absurd rfl h
  | cons w ws ih =>
    cases ws with
    | nil => simp
    | cons v ws =>
      have ih := ih (List.cons_ne_nil v ws)
      rw [List.intercalate_cons_cons, List.length_append, List.length_append, List.map_cons,
        List.sum_cons, List.length_singleton, @List.length_cons _ w]
      omega

end Text

namespace Pointer

section Escapes

variable {mark c : Char} {cs : List Char}

/-- Restoring leaves a text without the escape as it is, and shortens any other. -/
theorem restore_cases (mark c : Char) (cs : List Char) :
    (restore mark c cs = cs ∧ ¬ ['~', mark] <:+: cs) ∨
      ((restore mark c cs).length < cs.length ∧ ['~', mark] <:+: cs) := by
  fun_induction restore mark c cs with
  | case1 cs ih =>
    refine .inr ⟨?_, [], cs, rfl⟩
    rcases ih with ⟨hself, -⟩ | ⟨hlt, -⟩
    · simp [hself]
    · simp only [List.length_cons]
      omega
  | case2 d cs hd ih =>
    have hlater : ['~', mark] <:+: '~' :: d :: cs ↔ ['~', mark] <:+: d :: cs := by
      rw [List.infix_cons_iff, List.cons_prefix_cons, List.cons_prefix_cons]
      simp [Ne.symm hd]
    rw [hlater]
    simpa using ih
  | case3 d cs hd ih =>
    have hlater : ['~', mark] <:+: d :: cs ↔ ['~', mark] <:+: cs := by
      rw [List.infix_cons_iff, List.cons_prefix_cons]
      refine or_iff_right ?_
      rintro ⟨rfl, rest, rfl⟩
      exact hd mark rest rfl rfl
    rw [hlater]
    simpa using ih
  | case4 => exact .inl ⟨rfl, by simp⟩

/-- A text reads as itself if no escape is in it, and as a shorter one otherwise. -/
theorem unescape_cases (cs : List Char) :
    (unescape cs = cs ∧ ¬ ['~', '0'] <:+: cs ∧ ¬ ['~', '1'] <:+: cs) ∨
      ((unescape cs).length < cs.length ∧ (['~', '0'] <:+: cs ∨ ['~', '1'] <:+: cs)) := by
  rw [unescape]
  rcases restore_cases '1' '/' cs with ⟨hself, hone⟩ | ⟨hlt, hone⟩
  · rw [hself]
    rcases restore_cases '0' '~' cs with ⟨hself, hzero⟩ | ⟨hlt, hzero⟩
    · exact .inl ⟨hself, hzero, hone⟩
    · exact .inr ⟨hlt, .inl hzero⟩
  · refine .inr ⟨?_, .inr hone⟩
    rcases restore_cases '0' '~' (restore '1' '/' cs) with ⟨hself, -⟩ | ⟨hlt', -⟩
    · rwa [hself]
    · exact hlt'.trans hlt

theorem unescape_eq_self_iff :
    unescape cs = cs ↔ ¬ ['~', '0'] <:+: cs ∧ ¬ ['~', '1'] <:+: cs := by
  rcases unescape_cases cs with ⟨hself, hnone⟩ | ⟨hlt, hsome⟩
  · exact iff_of_true hself hnone
  · refine iff_of_false (fun hself => ?_) (by tauto)
    rw [hself] at hlt
    exact Nat.lt_irrefl _ hlt

theorem length_unescape_le (cs : List Char) : (unescape cs).length ≤ cs.length := by
  rcases unescape_cases cs with ⟨hself, -⟩ | ⟨hlt, -⟩
  · rw [hself]
  · exact hlt.le

theorem unescape_eq_self_of_length (h : cs.length ≤ (unescape cs).length) : unescape cs = cs := by
  rcases unescape_cases cs with ⟨hself, -⟩ | ⟨hlt, -⟩
  · exact hself
  · exact absurd h (Nat.not_le.mpr hlt)

end Escapes

/-- What a pointer can hold as it is: no slash, and nothing that reads as an escape. -/
def Plain (name : String) : Prop :=
  '/' ∉ name.toList ∧ ¬ ['~', '0'] <:+: name.toList ∧ ¬ ['~', '1'] <:+: name.toList

instance (name : String) : Decidable (Plain name) := by unfold Plain; infer_instance

theorem Plain.unescape {name : String} (h : Plain name) : unescape name.toList = name.toList :=
  unescape_eq_self_iff.mpr h.2

theorem plain_toString (i : Nat) : Plain (toString i) := by
  have hdigit {c : Char} (hc : c.isDigit = false) : c ∉ (toString i).toList := fun h =>
    absurd (isDigit_of_mem_toString i h) (by simp [hc])
  have htilde {d : Char} : ¬ ['~', d] <:+: (toString i).toList := fun h =>
    hdigit (c := '~') (by decide) (h.subset (by simp))
  exact ⟨hdigit (by decide), htilde, htilde⟩

/-- A pointer begins with no slash after those that it skips, so its first piece is not empty. -/
theorem head?_pieces_body_ne {fragment : String} (h : body fragment ≠ []) :
    (Text.pieces (· == '/') (body fragment)).head? ≠ some [] := by
  have hfirst := List.head?_dropWhile_not (· == '/') (fragment.toList.dropWhile (· == '#'))
  rw [← body] at hfirst
  obtain ⟨c, cs, hcs⟩ := List.exists_cons_of_ne_nil h
  rw [hcs] at hfirst ⊢
  have hc : (c == '/') = false := hfirst
  simp only [Text.pieces, hc, Bool.false_eq_true, ↓reduceIte]
  cases Text.pieces (· == '/') cs <;> simp

/-- What a pointer is read from is no longer than what it is joined of. -/
theorem length_body_le (s : String) : (body ("#/" ++ s)).length ≤ s.toList.length := by
  have hbody : body ("#/" ++ s) = s.toList.dropWhile (· == '/') := by simp [body]
  rw [hbody]
  exact (List.dropWhile_suffix _).length_le

/-- Where a pointer that is joined of texts is read as these texts, they are its pieces. The escapes
that a reading undoes, and the slashes that it skips, would make them shorter than what was
joined. -/
theorem pieces_of_steps_join {ts : List String} (hne : ts ≠ [])
    (h : steps ("#/" ++ Text.join "/" ts) = ts) :
    Text.pieces (· == '/') (body ("#/" ++ Text.join "/" ts)) = ts.map String.toList ∧
      ∀ t ∈ ts, unescape t.toList = t.toList := by
  let pieces := Text.pieces (· == '/') (body ("#/" ++ Text.join "/" ts))
  have hread : pieces.map unescape = ts.map String.toList := by
    unfold steps at h
    split at h
    · exact absurd h.symm hne
    · rw [← h, List.map_map]
      exact List.map_congr_left fun piece _ => String.toList_ofList.symm
  have hslash : "/".toList = ['/'] := rfl
  have hle := length_body_le (Text.join "/" ts)
  have hpieces : (pieces.map List.length).sum + pieces.length = _ := Text.sum_length_pieces ..
  have hwords : ts.map String.toList ≠ [] := mt List.map_eq_nil_iff.mp hne
  have hjoined := Text.length_intercalate '/' hwords
  rw [Text.toList_join, hslash] at hle
  rw [← hread, List.map_map, List.length_map] at hjoined
  have hself : ∀ piece ∈ pieces, unescape piece = piece := by
    intro piece hpiece
    apply unescape_eq_self_of_length
    by_contra hshort
    -- one short piece, and the texts together would be shorter than they are
    have hlt : (pieces.map (List.length ∘ unescape)).sum < (pieces.map List.length).sum :=
      List.sum_lt_sum _ _ (fun p _ => length_unescape_le p) ⟨piece, hpiece, Nat.not_le.mp hshort⟩
    rw [← hread] at hle
    omega
  have hsame : pieces = ts.map String.toList := by
    rw [← hread, List.map_congr_left hself, List.map_id']
  refine ⟨hsame, fun t ht => hself _ ?_⟩
  rw [hsame]
  exact List.mem_map_of_mem ht

/-- A pointer that is joined of texts is read as these texts just where they can stand in it as they
are. -/
theorem steps_join_eq_self_iff {ts : List String} (hne : ts ≠ []) :
    steps ("#/" ++ Text.join "/" ts) = ts ↔ ts.head? ≠ some "" ∧ ∀ t ∈ ts, Plain t := by
  constructor
  · intro h
    obtain ⟨hpieces, hself⟩ := pieces_of_steps_join hne h
    constructor
    · intro hfirst
      have hbody : body ("#/" ++ Text.join "/" ts) ≠ [] := by
        intro hbody
        rw [steps, if_pos hbody] at h
        exact hne h.symm
      apply head?_pieces_body_ne hbody
      rw [hpieces, List.head?_map, hfirst]
      rfl
    · intro t ht
      have hpiece : t.toList ∈ Text.pieces (· == '/') (body ("#/" ++ Text.join "/" ts)) :=
        hpieces ▸ List.mem_map_of_mem ht
      exact ⟨fun hslash => absurd (Text.not_of_mem_pieces hpiece _ hslash) (by simp),
        unescape_eq_self_iff.mp (hself t ht)⟩
  · rintro ⟨hfirst, hplain⟩
    rw [steps_join (fun t ht => (hplain t ht).1) hfirst]
    refine (List.map_congr_left fun t ht => ?_).trans (List.map_id ts)
    rw [(hplain t ht).unescape, String.ofList_toList]
    rfl

section Spelled

variable {p q ss : List Step}

theorem spell_eq_join (s : Step) (ss : List Step) :
    spell (s :: ss) = "/" ++ Text.join "/" ((s :: ss).map Step.text) := by
  induction ss generalizing s with
  | nil => simp [Text.join]
  | cons t ss ih =>
    rw [spell_cons, ih t, ← String.toList_inj]
    simp [List.intercalate_cons_cons]

/-- Written as they are, the steps still read as themselves: no key needs an escape, and the first
is not empty. -/
def NeedNoEscape (ss : List Step) : Prop :=
  ss.head? ≠ some (.key "") ∧ ∀ name, .key name ∈ ss → Plain name

/-- Steps that are spelled as they are, and not escaped, are read back just where none of them needs
it. -/
theorem steps_spell_iff : steps ("#" ++ spell ss) = ss.map Step.text ↔ NeedNoEscape ss := by
  cases ss with
  | nil => exact iff_of_true (by decide) ⟨by simp, by simp⟩
  | cons s ss =>
    have hpointer : "#" ++ spell (s :: ss) =
        "#/" ++ Text.join "/" ((s :: ss).map Step.text) := by
      rw [spell_eq_join, ← String.append_assoc]
      rfl
    have hfirst : ((s :: ss).map Step.text).head? ≠ some "" ↔
        (s :: ss).head? ≠ some (.key "") := by
      cases s with
      | key name => simp [Step.text]
      | index i => simp [Step.text]
    have hplain : (∀ text ∈ (s :: ss).map Step.text, Plain text) ↔
        ∀ name, .key name ∈ s :: ss → Plain name := by
      rw [List.forall_mem_map]
      constructor
      · exact fun h name hname => h (.key name) hname
      · intro h step hstep
        cases step with
        | key name => exact h name hstep
        | index i => exact plain_toString i
    rw [hpointer, steps_join_eq_self_iff (by simp), hfirst, hplain]
    rfl

/-- No key on the way holds a slash. -/
def SlashFree (ss : List Step) : Prop := ∀ name, .key name ∈ ss → '/' ∉ name.toList

theorem pieces_spell (h : SlashFree ss) :
    Text.pieces (· == '/') (spell ss).toList = [] :: ss.map (·.text.toList) := by
  induction ss with
  | nil => rfl
  | cons s ss ih =>
    have hs : ∀ c ∈ s.text.toList, (c == '/') = false := by
      apply Text.beq_eq_false_of_notMem
      cases s with
      | key name => exact h name (List.mem_cons_self ..)
      | index i => exact (plain_toString i).1
    have hchars : (spell (s :: ss)).toList = '/' :: (s.text.toList ++ (spell ss).toList) := by
      simp
    rw [hchars, Text.pieces, if_pos (by decide), Text.pieces_append_of_forall_not hs,
      ih fun name hname => h name (List.mem_cons_of_mem _ hname)]
    simp

theorem texts_eq_of_spell_eq (hp : SlashFree p) (hq : SlashFree q) (h : spell p = spell q) :
    p.map Step.text = q.map Step.text := by
  have hpieces := congrArg (fun s => Text.pieces (· == '/') s.toList) h
  simp only [pieces_spell hp, pieces_spell hq, List.cons.injEq, true_and] at hpieces
  have htexts := congrArg (List.map String.ofList) hpieces
  simpa [Function.comp_def] using htexts

end Spelled

end Pointer

namespace Json

open Pointer (Step)

/-- Where no object has a key twice, two places with the same texts are one: what a text leads into
is an object or an array, and so the text is a key or an index. -/
theorem At.steps_eq {j v w : Json} {p q : List Step} (hp : j.At p v) (hq : j.At q w)
    (hj : j.KeysDistinct) (h : p.map Step.text = q.map Step.text) : p = q := by
  induction hp generalizing q with
  | here j => exact (List.map_eq_nil_iff.mp h.symm).symm
  | @member name v k ms steps hm hv ih =>
    cases hq with
    | here => cases h
    | @member name' v' _ _ steps' hm' hv' =>
      obtain ⟨hname, hsteps⟩ := List.cons.inj h
      obtain rfl : name = name' := hname
      have hsame := (Members.mem_iff_get?_eq_some hj.1).mp hm
      rw [(Members.mem_iff_get?_eq_some hj.1).mp hm', Option.some.injEq] at hsame
      subst hsame
      rw [ih hv' (hj.2.of_mem hm) hsteps]
  | @elem i e k es steps he hk ih =>
    cases hq with
    | here => cases h
    | @elem i' e' _ _ steps' he' hk' =>
      obtain ⟨hindex, hsteps⟩ := List.cons.inj h
      have hread : some i = some i' := by
        rw [← Pointer.index?_toString i, ← Pointer.index?_toString i']
        exact congrArg Pointer.index? hindex
      obtain rfl := Option.some.inj hread
      rw [he, Option.some.injEq] at he'
      subst he'
      rw [ih hk' (KeysDistinctElems.of_mem hj (List.mem_of_getElem? he)) hsteps]

theorem At.of_get? {j v : Json} {ms : Members} {p : List Step} {key : String}
    (h : j.At p (.obj ms)) (hv : Members.get? key ms = some v) : j.At (p ++ [.key key]) v := by
  generalize hk : Json.obj ms = k at h
  induction h with
  | here j =>
    subst hk
    exact .member (Members.mem_of_get?_eq_some hv) (.here v)
  | member hm _ ih => exact .member hm (ih hk)
  | elem he _ ih => exact .elem he (ih hk)

end Json

namespace Lint

open Json (placedObjects)
open Pointer (Step spell NeedNoEscape SlashFree)

/-- A value of a document that something is found about, and the steps to it. -/
structure Fault where
  steps : List Step
  value : Json
  finding : Finding

def Fault.located (f : Fault) : Located := ⟨spell f.steps, f.finding⟩

section Faults

variable {t : FileTree} {dir : Path} {document : Json} {key : String}
  {check : Json → Option Finding}

/-- The keys whose values are judged wherever they stand, and how. -/
def judgements (t : FileTree) (dir : Path) (document : Json) :
    List (String × (Json → Option Finding)) :=
  [(Ref.keyword, fun v => v.text?.bind (checkRef t dir document)),
    (skipReasonKey, checkSkipReason), (abiOverrideKey, checkOverride)]

/-- The value stands in the document under a key that is judged, and the finding is what comes of
it. -/
def Fault.Occurs (t : FileTree) (dir : Path) (document : Json) (f : Fault) : Prop :=
  document.At f.steps f.value ∧ ∃ outer key check, (key, check) ∈ judgements t dir document ∧
    f.steps = outer ++ [.key key] ∧ check f.value = some f.finding

/-- The fault, if any, that an object has under a key. -/
def faultAt (key : String) (check : Json → Option Finding) (n : List Step × Members) :
    Option Fault :=
  (Members.get? key n.2).bind fun v => (check v).map (⟨n.1 ++ [.key key], v, ·⟩)

theorem annotationFinding_eq (n : List Step × Members) :
    annotationFinding key check (spell n.1, n.2) = (faultAt key check n).map Fault.located := by
  rw [annotationFinding_spell, faultAt, Option.map_bind, Option.map_bind]
  congr 1
  funext v
  rw [Function.comp_apply, Function.comp_apply, Option.map_map]
  rfl

theorem Fault.occurs_of_faultAt (hkey : (key, check) ∈ judgements t dir document)
    {n : List Step × Members} (hn : n ∈ placedObjects document) {f : Fault}
    (h : faultAt key check n = some f) : f.Occurs t dir document ∧ f.steps = n.1 ++ [.key key] := by
  obtain ⟨v, hv, hcheck⟩ := Option.bind_eq_some_iff.mp h
  obtain ⟨finding, hfinding, rfl⟩ := Option.map_eq_some_iff.mp hcheck
  have hat : document.At n.1 (.obj n.2) := (Json.mem_placedObjects_iff document).mp hn
  exact ⟨⟨hat.of_get? hv, n.1, key, check, hkey, rfl, hfinding⟩, rfl⟩

/-- What is found under a key comes of as many faults, each at a place of its own. -/
theorem exists_faults (hdocument : document.KeysDistinct)
    (hkey : (key, check) ∈ judgements t dir document) :
    ∃ faults : List Fault,
      (objects "" document).filterMap (annotationFinding key check) =
        faults.map Fault.located ∧
      (faults.map Fault.steps).Nodup ∧ ∀ f ∈ faults, f.Occurs t dir document := by
  refine ⟨(placedObjects document).filterMap (faultAt key check), ?_, ?_, ?_⟩
  · rw [Json.objects_eq_map, List.filterMap_map, List.map_filterMap]
    congr 1
    funext n
    simpa using annotationFinding_eq n
  · rw [List.Nodup, List.pairwise_map, List.pairwise_filterMap]
    refine (Json.pairwise_placedObjects document).imp_of_mem ?_
    intro m n hm hn hmn f hf g hg hsteps
    rw [(Fault.occurs_of_faultAt hkey hm hf).2, (Fault.occurs_of_faultAt hkey hn hg).2,
      List.append_left_inj] at hsteps
    rw [hsteps] at hmn
    exact hmn.asymm hdocument hmn
  · intro f hf
    obtain ⟨n, hn, hfault⟩ := List.mem_filterMap.mp hf
    exact (Fault.occurs_of_faultAt hkey hn hfault).1

end Faults

end Lint

open Lint Pointer

/-- The path of a finding is spelled from the keys and indices on the way to the value it is about.
As a pointer it is read back just where no key on the way needs an escape, and then it leads to that
value; where no key holds a slash, the paths of different values differ. -/
theorem paths_lead_iff_keys_plain {t : FileTree} {file : Path} {document : Json}
    (h : t.source.load file = .ok document) (base : Path) :
    (∀ codes ∈ [refCodes, ["W003"], ["W004"]], ∃ faults : List Fault,
      withCodes codes (lintFile t file base).findings = faults.map Fault.located ∧
      (faults.map Fault.steps).Nodup ∧ ∀ f ∈ faults, f.Occurs t file.directory document) ∧
    (∀ f : Fault, f.Occurs t file.directory document →
      (Pointer.steps ("#" ++ f.located.path) = f.steps.map Step.text ↔ NeedNoEscape f.steps) ∧
      (NeedNoEscape f.steps →
        Ref.navigate document ("#" ++ f.located.path) = .ok f.value)) ∧
    ∀ f g : Fault, f.Occurs t file.directory document → g.Occurs t file.directory document →
      SlashFree f.steps → SlashFree g.steps → f.steps ≠ g.steps →
        f.located.path ≠ g.located.path := by
  have hdocument : document.KeysDistinct := Source.keysDistinct_of_load h
  refine ⟨?_, ?_, ?_⟩
  · rw [findings_lintFile h]
    obtain ⟨hrefs, hskip, hoverride, -⟩ := withCodes_checkDocument t file.directory document
    intro codes hcodes
    simp only [List.mem_cons, List.not_mem_nil, or_false] at hcodes
    rcases hcodes with rfl | rfl | rfl
    · rw [hrefs, refFinding_eq]
      exact exists_faults hdocument (by simp [judgements])
    · rw [hskip]
      exact exists_faults hdocument (by simp [judgements])
    · rw [hoverride]
      exact exists_faults hdocument (by simp [judgements])
  · intro f hf
    refine ⟨steps_spell_iff, fun hplain => ?_⟩
    have hsteps : Pointer.steps ("#" ++ f.located.path) = f.steps.map Step.text :=
      steps_spell_iff.mpr hplain
    rw [Ref.navigate, Json.navigate, hsteps, hf.1.follow hdocument]
  · intro f g hf hg hfree hfree' hne hpath
    exact hne (hf.1.steps_eq hg.1 hdocument (texts_eq_of_spell_eq hfree hfree' hpath))

section Samples

/-- The path of a reference without a target leads to the reference. -/
theorem path_of_lost_reference :
    withCodes refCodes (lintFile faultyTree ⟨"review.json"⟩ ⟨"."⟩).findings =
      [⟨"/properties/score/$ref", .anchorNotFound "#/Gone"⟩] ∧
    Ref.navigate faultyReview ("#" ++ "/properties/score/$ref") = .ok (.str "#/Gone") := by
  let lost : Fault := ⟨[.key "properties", .key "score", .key "$ref"], .str "#/Gone",
    .anchorNotFound "#/Gone"⟩
  have hat : faultyReview.At lost.steps (.str "#/Gone") :=
    .member (List.mem_cons_of_mem _ (List.mem_cons_of_mem _ (List.mem_cons_self ..)))
      (.member (List.mem_cons_self ..) (.member (List.mem_cons_self ..) (.here _)))
  have hcheck : checkRef faultyTree (Path.mk "review.json").directory faultyReview "#/Gone" =
      some (.anchorNotFound "#/Gone") := by decide
  have hlost : lost.Occurs faultyTree (Path.mk "review.json").directory faultyReview :=
    ⟨hat, [.key "properties", .key "score"], _, _, List.mem_cons_self .., rfl, hcheck⟩
  have hplain : NeedNoEscape lost.steps := by
    refine ⟨by decide, ?_⟩
    intro name hname
    simp only [lost, List.mem_cons, Step.key.injEq, List.not_mem_nil, or_false] at hname
    rcases hname with rfl | rfl | rfl <;> decide
  have hpath : lost.located.path = "/properties/score/$ref" := by decide
  refine ⟨?_, ?_⟩
  · rw [findings_lintFile load_faultyTree]
    decide
  · rw [← hpath]
    exact ((paths_lead_iff_keys_plain load_faultyTree ⟨"."⟩).2.1 lost hlost).2 hplain

def slashedText : String :=
  "\x7b\"title\":\"Review\",\"properties\":\x7b\"a\":\x7b\"b\":\x7b\"$ref\":\"one\"\x7d\x7d," ++
  "\"a/b\":\x7b\"$ref\":\"two\"\x7d\x7d\x7d"

/-- A property within a property, and one with a slash in its name. -/
def slashedReview : Json :=
  .obj [("title", .str "Review"), ("properties", .obj [
    ("a", .obj [("b", .obj [("$ref", .str "one")])]), ("a/b", .obj [("$ref", .str "two")])])]

def slashedTree : FileTree := ⟨.dir [("review.json", .file slashedText.toUTF8)], []⟩

/-- Both references are found at one path, and it leads to the first. -/
theorem slashed_key_not_reached :
    slashedTree.source.load ⟨"review.json"⟩ = .ok slashedReview ∧
    withCodes ["E004"] (lintFile slashedTree ⟨"review.json"⟩ ⟨"."⟩).findings =
      [⟨"/properties/a/b/$ref", .unsupportedRef "one"⟩,
        ⟨"/properties/a/b/$ref", .unsupportedRef "two"⟩] ∧
    Ref.navigate slashedReview ("#" ++ "/properties/a/b/$ref") = .ok (.str "one") := by
  have hload : slashedTree.source.load ⟨"review.json"⟩ = .ok slashedReview := by
    have hread : slashedTree.read ⟨"review.json"⟩ = .ok slashedText := by decide
    have hparse : Json.parse slashedText = .ok slashedReview := by cbv
    rw [FileTree.load_source, hread]
    simp only [Json.load, hparse]
  refine ⟨hload, ?_, by rfl⟩
  rw [findings_lintFile hload]
  decide

end Samples

end OnchainSchema
