import OnchainSchema.Proofs.CompileCommand
import OnchainSchema.Proofs.LintForecast
import OnchainSchema.Proofs.LintedProjects
import OnchainSchema.Proofs.ObjectOrder

/-!
What lint finds in a document, fault by fault. Each object is judged once, in the order in which the
document is read, and nothing else is found. Where no annotation is found to be unknown, none that a
compilation reads in the document is unknown either.
-/
namespace OnchainSchema

open Json (ObjectsInOrder placedObjects)
open Pointer (Step spell)

namespace Lint

/-- The findings with one of the codes. -/
def withCodes (codes : List String) (ls : List Located) : List Located :=
  ls.filter (·.finding.code ∈ codes)

/-- The value is none of these texts. -/
def isNoneOf (known : List String) (value : Json) : Bool := value.text?.all (· ∉ known)

section Codes

variable {codes : List String} {ls ls' : List Located}

@[simp] theorem withCodes_append :
    withCodes codes (ls ++ ls') = withCodes codes ls ++ withCodes codes ls' :=
  List.filter_append ..

theorem withCodes_eq_self (h : ∀ l ∈ ls, l.finding.code ∈ codes) : withCodes codes ls = ls :=
  List.filter_eq_self.mpr fun l hl => by simpa using h l hl

theorem withCodes_eq_nil {others : List String} (h : ∀ l ∈ ls, l.finding.code ∈ others)
    (hothers : ∀ code ∈ others, code ∉ codes) : withCodes codes ls = [] :=
  List.filter_eq_nil_iff.mpr fun l hl => by simpa using hothers _ (h l hl)

theorem withCodes_eq_nil_of_subset {more : List String} (hmore : codes ⊆ more)
    (h : withCodes more ls = []) : withCodes codes ls = [] := by
  simp only [withCodes, List.filter_eq_nil_iff, decide_eq_true_iff] at h ⊢
  exact fun l hl hcode => h l hl (hmore hcode)

end Codes

section Parts

variable {t : FileTree} {file dir : Path} {document : Json} {node : String × Members} {l : Located}

/-- A reference is judged as an annotation is: it is the text under a key. -/
theorem refFinding_eq : refFinding t dir document =
    annotationFinding Ref.keyword fun v => v.text?.bind (checkRef t dir document) := by
  funext node
  have hpath : node.1 ++ "/$ref" = node.1 ++ "/" ++ Ref.keyword := by
    rw [String.append_assoc]
    rfl
  rw [refFinding, annotationFinding, hpath, Ref.keyword]
  cases Members.get? "$ref" node.2 with
  | none => rfl
  | some v => cases v <;> rfl

theorem code_of_mem_refFindings {nodes : List (String × Members)}
    (h : l ∈ nodes.filterMap (refFinding t dir document)) : l.finding.code ∈ refCodes := by
  obtain ⟨node, -, hnode⟩ := List.mem_filterMap.mp h
  obtain ⟨ref, -, f, hf, rfl⟩ := refFinding_eq_some_iff.mp hnode
  exact code_of_checkRef hf

theorem code_of_mem_annotationFindings {nodes : List (String × Members)}
    (h : l ∈ nodes.flatMap annotationFindings) : l.finding.code ∈ ["W003", "W004"] := by
  obtain ⟨node, -, hnode⟩ := List.mem_flatMap.mp h
  simpa using code_of_annotationFindings hnode

/-- Of the findings on annotations, those under each key have a code of their own. -/
theorem withCodes_annotationFindings (nodes : List (String × Members)) :
    withCodes ["W003"] (nodes.flatMap annotationFindings) =
      nodes.filterMap (annotationFinding skipReasonKey checkSkipReason) ∧
    withCodes ["W004"] (nodes.flatMap annotationFindings) =
      nodes.filterMap (annotationFinding abiOverrideKey checkOverride) := by
  have hskip (node : String × Members) (l : Located)
      (hl : l ∈ (annotationFinding skipReasonKey checkSkipReason node).toList) :
      l.finding.code ∈ ["W003"] := by simp [code_of_annotationFinding code_of_checkSkipReason hl]
  have hoverride (node : String × Members) (l : Located)
      (hl : l ∈ (annotationFinding abiOverrideKey checkOverride node).toList) :
      l.finding.code ∈ ["W004"] := by simp [code_of_annotationFinding code_of_checkOverride hl]
  simp only [List.filterMap_eq_flatMap_toList, withCodes, List.filter_flatMap]
  constructor <;> refine congrArg (nodes.flatMap ·) (funext fun node => ?_)
  · rw [annotationFindings, ← withCodes, withCodes_append, withCodes_eq_self (hskip node),
      withCodes_eq_nil (hoverride node) (by decide), List.append_nil]
  · rw [annotationFindings, ← withCodes, withCodes_append, withCodes_eq_self (hoverride node),
      withCodes_eq_nil (hskip node) (by decide), List.nil_append]

/-- The entry of `required` at a place, if it names no property. -/
def danglingEntry (properties : Members) (entry : Json × Nat) : Option Located :=
  entry.1.text?.bind fun name =>
    if name ∈ Members.keys properties then none
    else some ⟨spell [.key "required", .index entry.2], .requiredNoProperty name⟩

theorem requiredFindings_eq (properties : Members) (i : Nat) (required : List Json) :
    requiredFindings properties i required =
      (required.zipIdx i).filterMap (danglingEntry properties) := by
  induction required generalizing i with
  | nil => rfl
  | cons entry rest ih =>
    rw [List.zipIdx_cons, List.filterMap_cons, ← ih (i + 1)]
    cases entry with
    | str name =>
      have hpath : spell [.key "required", .index i] = "/required/" ++ toString i := by
        simp [Step.text, ← String.append_assoc]
      by_cases hname : name ∈ Members.keys properties
      · simp [requiredFindings, danglingEntry, Json.text?, hname]
      · simp [requiredFindings, danglingEntry, Json.text?, hname, hpath]
    | _ => rfl

theorem code_of_danglingEntry {properties : Members} {entry : Json × Nat}
    (h : danglingEntry properties entry = some l) : l.finding.code = "W005" := by
  obtain ⟨name, -, hname⟩ := Option.bind_eq_some_iff.mp h
  split at hname
  · cases hname
  · obtain rfl := Option.some.inj hname
    rfl

/-- The members that stand under `properties`. -/
def propertiesOf (document : Json) : Members :=
  ((document.get? "properties").bind Json.members?).getD []

/-- The entries of the list under `required`. -/
def requiredOf (document : Json) : List Json :=
  ((document.get? "required").bind Json.elems?).getD []

theorem documentFindings_eq (document : Json) :
    documentFindings document =
      (if propertiesOf document = [] then [⟨"/", .noProperties⟩] else []) ++
        (if document.textAt? "title" = none then [⟨"/", .noTitle⟩] else []) ++
        (requiredOf document).zipIdx.filterMap (danglingEntry (propertiesOf document)) := by
  rw [← requiredFindings_eq]
  rfl

theorem code_of_mem_documentFindings (h : l ∈ documentFindings document) :
    l.finding.code ∈ ["W001", "W002", "W005"] := by
  rw [documentFindings_eq, List.mem_append, List.mem_append, List.mem_filterMap] at h
  rcases h with (h | h) | ⟨entry, -, h⟩
  · split at h
    · obtain rfl := List.mem_singleton.mp h
      decide
    · cases h
  · split at h
    · obtain rfl := List.mem_singleton.mp h
      decide
    · cases h
  · simp [code_of_danglingEntry h]

theorem withCodes_documentFindings (document : Json) :
    withCodes ["W005"] (documentFindings document) =
      (requiredOf document).zipIdx.filterMap (danglingEntry (propertiesOf document)) ∧
    (withCodes ["W001"] (documentFindings document)).length ≤ 1 ∧
    (withCodes ["W002"] (documentFindings document)).length ≤ 1 := by
  have hdangling : ∀ l ∈ (requiredOf document).zipIdx.filterMap
      (danglingEntry (propertiesOf document)), l.finding.code ∈ ["W005"] := by
    intro l hl
    obtain ⟨entry, -, hentry⟩ := List.mem_filterMap.mp hl
    simp [code_of_danglingEntry hentry]
  have hnone {code : String} (hcode : "W005" ∉ [code]) : withCodes [code]
      ((requiredOf document).zipIdx.filterMap (danglingEntry (propertiesOf document))) = [] :=
    withCodes_eq_nil hdangling (by simpa using hcode)
  simp only [documentFindings_eq, withCodes_append, withCodes_eq_self hdangling,
    hnone (show "W005" ∉ ["W001"] by decide), hnone (show "W005" ∉ ["W002"] by decide)]
  split <;> split <;> simp [withCodes, Finding.code]

/-- What lint finds on references, on annotations and in the list of required fields, each by its
code. -/
theorem withCodes_checkDocument (t : FileTree) (dir : Path) (document : Json) :
    let ls := checkDocument t dir document
    withCodes refCodes ls = (objects "" document).filterMap (refFinding t dir document) ∧
    withCodes ["W003"] ls =
      (objects "" document).filterMap (annotationFinding skipReasonKey checkSkipReason) ∧
    withCodes ["W004"] ls =
      (objects "" document).filterMap (annotationFinding abiOverrideKey checkOverride) ∧
    withCodes ["W005"] ls =
      (requiredOf document).zipIdx.filterMap (danglingEntry (propertiesOf document)) ∧
    (withCodes ["W001"] ls).length ≤ 1 ∧ (withCodes ["W002"] ls).length ≤ 1 := by
  intro ls
  have hparts (codes : List String) : withCodes codes ls =
      withCodes codes ((objects "" document).filterMap (refFinding t dir document)) ++
        withCodes codes ((objects "" document).flatMap annotationFindings) ++
        withCodes codes (documentFindings document) := by
    simp only [ls, checkDocument, withCodes_append]
  have hrefs (l : Located) (hl : l ∈ (objects "" document).filterMap (refFinding t dir document)) :=
    code_of_mem_refFindings hl
  have hannotations (l : Located) (hl : l ∈ (objects "" document).flatMap annotationFindings) :=
    code_of_mem_annotationFindings hl
  have hdocument (l : Located) (hl : l ∈ documentFindings document) :=
    code_of_mem_documentFindings hl
  -- the codes of each part are none of another's
  have hannotated {codes : List String} (hrefCodes : ∀ code ∈ refCodes, code ∉ codes)
      (hdocumentCodes : ∀ code ∈ ["W001", "W002", "W005"], code ∉ codes) :
      withCodes codes ls = withCodes codes ((objects "" document).flatMap annotationFindings) := by
    rw [hparts, withCodes_eq_nil hrefs hrefCodes, withCodes_eq_nil hdocument hdocumentCodes,
      List.append_nil, List.nil_append]
  have hwhole {codes : List String} (hrefCodes : ∀ code ∈ refCodes, code ∉ codes)
      (hannotationCodes : ∀ code ∈ ["W003", "W004"], code ∉ codes) :
      withCodes codes ls = withCodes codes (documentFindings document) := by
    rw [hparts, withCodes_eq_nil hrefs hrefCodes, withCodes_eq_nil hannotations hannotationCodes,
      List.nil_append, List.nil_append]
  obtain ⟨hskip, hoverride⟩ := withCodes_annotationFindings (objects "" document)
  obtain ⟨hrequired, hproperties, htitle⟩ := withCodes_documentFindings document
  refine ⟨?_, ?_, ?_, ?_, ?_, ?_⟩
  · rw [hparts, withCodes_eq_self hrefs, withCodes_eq_nil hannotations (by decide),
      withCodes_eq_nil hdocument (by decide), List.append_nil, List.append_nil]
  · rw [hannotated (by decide) (by decide), hskip]
  · rw [hannotated (by decide) (by decide), hoverride]
  · rw [hwhole (by decide) (by decide), hrequired]
  · rwa [hwhole (by decide) (by decide)]
  · rwa [hwhole (by decide) (by decide)]

theorem code_of_mem_checkDocument (h : l ∈ checkDocument t dir document) :
    l.finding.code ∈ refCodes ++ ["W003", "W004"] ++ ["W001", "W002", "W005"] := by
  rw [List.mem_append, List.mem_append]
  rcases List.mem_append.mp h with h | h
  · exact .inl ((List.mem_append.mp h).imp code_of_mem_refFindings code_of_mem_annotationFindings)
  · exact .inr (code_of_mem_documentFindings h)

theorem findings_lintFile (h : t.source.load file = .ok document) (base : Path) :
    (lintFile t file base).findings = checkDocument t file.directory document := by
  simp only [lintFile, checkFile, h]

end Parts

section Nodes

variable (nodes : List (List Step × Members))

theorem isSome_checkSkipReason (v : Json) :
    (checkSkipReason v).isSome = isNoneOf ["metadata", "eas", "unused"] v := by
  cases v with
  | str tag =>
    simp only [checkSkipReason, SkipReason.parse, isNoneOf, Json.text?]
    split_ifs <;> simp [*]
  | _ => rfl

theorem isSome_checkOverride (v : Json) : (checkOverride v).isSome = isNoneOf ["bytes32"] v := by
  cases v with
  | str name =>
    simp only [checkOverride, AbiOverride.parse, isNoneOf, Json.text?]
    split_ifs <;> simp [*]
  | _ => rfl

theorem annotationFinding_spell {key : String} {check : Json → Option Finding}
    (n : List Step × Members) : annotationFinding key check (spell n.1, n.2) =
      ((Members.get? key n.2).bind check).map (⟨spell (n.1 ++ [.key key]), ·⟩) := by
  rw [annotationFinding, Pointer.spell_concat_key]

/-- One finding for each annotation that is none of the known texts. -/
theorem map_path_annotationFinding {key : String} {check : Json → Option Finding}
    {known : List String} (h : ∀ v, (check v).isSome = isNoneOf known v) :
    ((nodes.map fun n => (spell n.1, n.2)).filterMap (annotationFinding key check)).map (·.path) =
      (nodes.filter fun n => (Members.get? key n.2).any (isNoneOf known)).map
        fun n => spell (n.1 ++ [.key key]) := by
  induction nodes with
  | nil => rfl
  | cons n nodes ih =>
    rw [List.map_cons, List.filterMap_cons, List.filter_cons, annotationFinding_spell]
    cases hget : Members.get? key n.2 with
    | none => simpa using ih
    | some v =>
      have hv := h v
      cases hcheck : check v with
      | none =>
        rw [hcheck] at hv
        simpa [hcheck, ← hv] using ih
      | some f =>
        rw [hcheck] at hv
        simpa [hcheck, ← hv] using ih

theorem filterMap_refFinding (t : FileTree) (dir : Path) (document : Json) :
    (nodes.map fun n => (spell n.1, n.2)).filterMap (refFinding t dir document) =
      nodes.filterMap fun n => ((Json.obj n.2).textAt? Ref.keyword).bind fun ref =>
        (checkRef t dir document ref).map (⟨spell (n.1 ++ [.key Ref.keyword]), ·⟩) := by
  rw [List.filterMap_map, refFinding_eq]
  congr 1
  funext n
  rw [Function.comp_apply, annotationFinding_spell, ← Option.bind_assoc, Option.map_bind]
  rfl

/-- Where nothing is found on the annotations under a key, each of them is a known text. -/
theorem isNoneOf_of_none_found {document : Json} {key : String} {check : Json → Option Finding}
    {known : List String} (hknown : ∀ v, (check v).isSome = isNoneOf known v)
    (hnone : (objects "" document).filterMap (annotationFinding key check) = []) {j v : Json}
    (hj : document.Holds j) (hv : j.get? key = some v) : isNoneOf known v = false := by
  cases j with
  | obj ms =>
    obtain ⟨p, hp⟩ := exists_mem_objects hj ""
    have hfinding := List.filterMap_eq_nil_iff.mp hnone _ hp
    have hget : Members.get? key ms = some v := hv
    rw [annotationFinding, hget, Option.bind_some, Option.map_eq_none_iff] at hfinding
    rw [← hknown, hfinding]
    rfl
  | _ => cases hv

end Nodes

end Lint

/-- Each annotation that the value has is read as one that counts for something. -/
def Json.AnnotationsCount (j : Json) : Prop :=
  (∀ v, j.get? skipReasonKey = some v →
    (Property.ofJson j).skipReason ∈ [some .metadata, some .eas, some .unused]) ∧
  ∀ v, j.get? abiOverrideKey = some v → (Property.ofJson j).override = some .bytes32

section Annotations

open Lint

theorem isNoneOf_eq_false_iff {known : List String} {v : Json} :
    isNoneOf known v = false ↔ ∃ s ∈ known, v = .str s := by
  cases v <;> simp [isNoneOf, Json.text?]

theorem Json.annotationsCount_of_known {j : Json}
    (hskip : ∀ v, j.get? skipReasonKey = some v → isNoneOf ["metadata", "eas", "unused"] v = false)
    (hoverride : ∀ v, j.get? abiOverrideKey = some v → isNoneOf ["bytes32"] v = false) :
    j.AnnotationsCount := by
  constructor
  · intro v hv
    obtain ⟨tag, htag, rfl⟩ := isNoneOf_eq_false_iff.mp (hskip v hv)
    have hread : (Property.ofJson j).skipReason = some (SkipReason.parse tag) := by
      simp [Property.ofJson, SkipReason.of?, Json.textAt?, hv, Json.text?]
    have hknown : ∀ tag ∈ ["metadata", "eas", "unused"], some (SkipReason.parse tag) ∈
        [some .metadata, some .eas, some .unused] := by decide
    rw [hread]
    exact hknown tag htag
  · intro v hv
    obtain ⟨name, hname, rfl⟩ := isNoneOf_eq_false_iff.mp (hoverride v hv)
    obtain rfl := List.mem_singleton.mp hname
    simp [Property.ofJson, AbiOverride.of?, Json.textAt?, hv, Json.text?, AbiOverride.parse]

/-- What a property has under a key after its reference is resolved is its own, or its target's. -/
theorem Ref.get?_expanded_cases {site : Site} {s : Source} {c : Cache} {property v : Json}
    (hproperty : property.KeysDistinct) {key : String} (hkey : key ≠ keyword)
    (h : (expanded site s c property).get? key = some v) :
    property.get? key = some v ∨ ∃ ref node, property.textAt? keyword = some ref ∧
      ((tryResolve site ref).run s c).value = .ok node ∧ node.get? key = some v := by
  rw [expanded_eq] at h
  cases href : property.textAt? keyword with
  | none =>
    rw [href] at h
    exact .inl h
  | some ref =>
    rw [href] at h
    dsimp only at h
    cases hvalue : ((tryResolve site ref).run s c).value with
    | error fault =>
      rw [hvalue] at h
      exact .inl h
    | ok node =>
      rw [hvalue] at h
      cases property with
      | obj own =>
        have hown : Members.get? key (overlay (node.members?.getD []) own) = some v := h
        rw [get?_overlay hproperty.1, if_neg hkey, Option.or_eq_some_iff] at hown
        rcases hown with hown | ⟨-, htarget⟩
        · exact .inl hown
        · cases node with
          | obj target => exact .inr ⟨ref, _, rfl, hvalue, htarget⟩
          | _ => cases htarget
      | _ => cases href

/-- Where no annotation is unknown, a property of the document has none, and neither has one with
its reference resolved within the document. -/
theorem Json.annotationsCount_expanded {document : Json} (hdocument : document.KeysDistinct)
    (hskip : ∀ j, document.Holds j → ∀ v, j.get? skipReasonKey = some v →
      isNoneOf ["metadata", "eas", "unused"] v = false)
    (hoverride : ∀ j, document.Holds j → ∀ v, j.get? abiOverrideKey = some v →
      isNoneOf ["bytes32"] v = false)
    {j : Json} (hj : document.Holds j)
    (hinside : ∀ ref, j.textAt? Ref.keyword = some ref →
      ∃ pointer, Ref.Target.ofText ref = .inside pointer) (dir : Path) (s : Source) (c : Cache) :
    (Ref.expanded ⟨document, dir⟩ s c j).AnnotationsCount := by
  -- whatever stands under a key after the reference is resolved stands in the document
  have hheld {key : String} (hkey : key ≠ Ref.keyword) {v : Json}
      (hv : (Ref.expanded ⟨document, dir⟩ s c j).get? key = some v) :
      ∃ k, document.Holds k ∧ k.get? key = some v := by
    rcases Ref.get?_expanded_cases (hj.keysDistinct hdocument) hkey hv with
      hown | ⟨ref, node, href, hvalue, htarget⟩
    · exact ⟨j, hj, hown⟩
    · obtain ⟨pointer, hpointer⟩ := hinside ref href
      exact ⟨node, Ref.holds_of_inside hpointer hvalue, htarget⟩
  refine annotationsCount_of_known (fun v hv => ?_) (fun v hv => ?_)
  · obtain ⟨k, hk, hkv⟩ := hheld (by decide) hv
    exact hskip k hk v hkv
  · obtain ⟨k, hk, hkv⟩ := hheld (by decide) hv
    exact hoverride k hk v hkv

end Annotations

open Lint

/-- Lint misses no fault of a document and makes none up. Where it finds no unknown annotation, none
that is read of a property, of the target of its reference within the document, or of the two laid
over each other counts for nothing. -/
theorem findings_are_faults {t : FileTree} {file : Path} {document : Json}
    (h : t.source.load file = .ok document) (base : Path) :
    let findings := (lintFile t file base).findings
    (∃ nodes, (∀ other, document.ObjectsInOrder other ↔ other = nodes) ∧
      (withCodes refCodes findings =
        nodes.filterMap fun n => ((Json.obj n.2).textAt? Ref.keyword).bind fun ref =>
          (checkRef t file.directory document ref).map (⟨spell (n.1 ++ [.key Ref.keyword]), ·⟩)) ∧
      ((withCodes ["W003"] findings).map (·.path) =
        (nodes.filter fun n => (Members.get? skipReasonKey n.2).any
          (isNoneOf ["metadata", "eas", "unused"])).map
            fun n => spell (n.1 ++ [.key skipReasonKey])) ∧
      ((withCodes ["W004"] findings).map (·.path) =
        (nodes.filter fun n => (Members.get? abiOverrideKey n.2).any (isNoneOf ["bytes32"])).map
          fun n => spell (n.1 ++ [.key abiOverrideKey]))) ∧
    withCodes ["W005"] findings =
      (requiredOf document).zipIdx.filterMap (danglingEntry (propertiesOf document)) ∧
    (withCodes ["W001"] findings).length ≤ 1 ∧ (withCodes ["W002"] findings).length ≤ 1 ∧
    (∀ l ∈ findings, l.finding.code ∈ refCodes ++ ["W003", "W004"] ++ ["W001", "W002", "W005"]) ∧
    (withCodes ["W003", "W004"] findings = [] → ∀ j, document.Holds j → j.AnnotationsCount ∧
      ((∀ ref, j.textAt? Ref.keyword = some ref →
        ∃ pointer, Ref.Target.ofText ref = .inside pointer) →
        ∀ dir s c, (Ref.expanded ⟨document, dir⟩ s c j).AnnotationsCount)) := by
  intro findings
  have hfindings : findings = checkDocument t file.directory document := findings_lintFile h base
  have hdocument : document.KeysDistinct := Source.keysDistinct_of_load h
  have hobjects : objects "" document =
      (placedObjects document).map fun n => (spell n.1, n.2) := by
    simpa using Json.objects_eq_map "" document
  obtain ⟨hrefs, hskip, hoverride, hrequired, hproperties, htitle⟩ :=
    withCodes_checkDocument t file.directory document
  rw [hfindings]
  refine ⟨⟨placedObjects document, fun _ => Json.objectsInOrder_iff hdocument, ?_, ?_, ?_⟩,
    hrequired, hproperties, htitle, fun _ => code_of_mem_checkDocument, ?_⟩
  · rw [hrefs, hobjects, filterMap_refFinding]
  · rw [hskip, hobjects, map_path_annotationFinding _ isSome_checkSkipReason]
  · rw [hoverride, hobjects, map_path_annotationFinding _ isSome_checkOverride]
  · intro hnone j hj
    rw [withCodes_eq_nil_of_subset (by decide) hnone] at hskip hoverride
    have hskips (k : Json) (hk : document.Holds k) (v : Json)
        (hv : k.get? skipReasonKey = some v) :=
      isNoneOf_of_none_found isSome_checkSkipReason hskip.symm hk hv
    have hoverrides (k : Json) (hk : document.Holds k) (v : Json)
        (hv : k.get? abiOverrideKey = some v) :=
      isNoneOf_of_none_found isSome_checkOverride hoverride.symm hk hv
    exact ⟨Json.annotationsCount_of_known (hskips j hj) (hoverrides j hj),
      fun hinside => Json.annotationsCount_expanded hdocument hskips hoverrides hj hinside⟩

section Samples

def faultyText : String :=
  "\x7b\"title\":\"Review\",\"required\":[\"score\",\"author\"],\"properties\":\x7b" ++
  "\"score\":\x7b\"$ref\":\"#/Gone\"\x7d,\"revoked\":\x7b\"$ref\":\"#/Flag\"\x7d\x7d," ++
  "\"Flag\":\x7b\"type\":\"boolean\",\"x-oma3-skip-reason\":\"eas\"\x7d\x7d"

/-- A reference without a target, a required field that is no property, and a tag that comes with a
reference. -/
def faultyReview : Json :=
  .obj [("title", .str "Review"), ("required", .arr [.str "score", .str "author"]),
    ("properties", .obj [("score", .obj [("$ref", .str "#/Gone")]),
      ("revoked", .obj [("$ref", .str "#/Flag")])]),
    ("Flag", .obj [("type", .str "boolean"), (skipReasonKey, .str "eas")])]

def faultyTree : FileTree := ⟨.dir [("review.json", .file faultyText.toUTF8)], []⟩

theorem load_faultyTree : faultyTree.source.load ⟨"review.json"⟩ = .ok faultyReview := by
  have hread : faultyTree.read ⟨"review.json"⟩ = .ok faultyText := by decide +kernel
  have hparse : Json.parse faultyText = .ok faultyReview := by cbv
  rw [FileTree.load_source, hread]
  simp only [Json.load, hparse]

/-- The two faults are found where they are, and the tag counts for the field that refers to it. -/
theorem faults_of_review_found :
    let findings := (lintFile faultyTree ⟨"review.json"⟩ ⟨"."⟩).findings
    faultyTree.source.load ⟨"review.json"⟩ = .ok faultyReview ∧
    (withCodes refCodes findings).map (·.path) = ["/properties/score/$ref"] ∧
    (withCodes ["W005"] findings).map (·.path) = ["/required/1"] ∧
    ∀ dir s c, (Ref.expanded ⟨faultyReview, dir⟩ s c
      (.obj [("$ref", .str "#/Flag")])).AnnotationsCount := by
  intro findings
  have hload := load_faultyTree
  have hfindings : findings =
      checkDocument faultyTree (Path.mk "review.json").directory faultyReview :=
    findings_lintFile hload ⟨"."⟩
  obtain ⟨-, hrequired, -, -, -, hannotations⟩ := findings_are_faults hload ⟨"."⟩
  refine ⟨hload, by rw [hfindings]; decide +kernel, by rw [hrequired]; decide +kernel, ?_⟩
  have hproperties : faultyReview.get? "properties" = some (.obj (propertiesOf faultyReview)) := rfl
  have hrevoked : (Json.obj (propertiesOf faultyReview)).get? "revoked" =
      some (.obj [("$ref", .str "#/Flag")]) := rfl
  have hholds := (Json.holds_of_get? hproperties).trans (Json.holds_of_get? hrevoked)
  have hclean : withCodes ["W003", "W004"] findings = [] := by rw [hfindings]; decide +kernel
  refine (hannotations hclean _ hholds).2 fun ref href => ⟨"#/Flag", ?_⟩
  obtain rfl : "#/Flag" = ref := Option.some.inj href
  decide +kernel

end Samples

end OnchainSchema
