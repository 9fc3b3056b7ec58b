import OnchainSchema.Command.Reach
import OnchainSchema.Proofs.Outcomes

/-!
What lint says about references. It looks at every object of a file, and a reference that it finds
nothing wrong with has a target, as long as the file that it leads to can be loaded.
-/
namespace OnchainSchema.Lint

theorem mem_objectsOfMembers {path key : String} {v : Json} {ms : Members}
    {o : String × Members} (hm : (key, v) ∈ ms) (ho : o ∈ objects (path ++ "/" ++ key) v) :
    o ∈ objectsOfMembers path ms := by
  induction ms with
  | nil => cases hm
  | cons m ms ih =>
    rw [objectsOfMembers, List.mem_append]
    rcases List.mem_cons.mp hm with rfl | hm
    · exact .inl ho
    · exact .inr (ih hm)

theorem mem_objectsOfElems {path : String} {e : Json} {es : List Json} {ms : Members}
    (he : e ∈ es) (ho : ∀ path, ∃ p, (p, ms) ∈ objects path e) (i : Nat) :
    ∃ p, (p, ms) ∈ objectsOfElems path i es := by
  induction es generalizing i with
  | nil => cases he
  | cons e' es ih =>
    simp only [objectsOfElems, List.mem_append]
    rcases List.mem_cons.mp he with rfl | he
    · obtain ⟨p, hp⟩ := ho (path ++ "/" ++ toString i)
      exact ⟨p, .inl hp⟩
    · obtain ⟨p, hp⟩ := ih he (i + 1)
      exact ⟨p, .inr hp⟩

/-- No object of a value is passed over, however deep it stands. -/
theorem exists_mem_objects {j : Json} {ms : Members} (h : j.Holds (.obj ms)) (path : String) :
    ∃ p, (p, ms) ∈ objects path j := by
  generalize hk : Json.obj ms = k at h
  induction h generalizing path with
  | refl j =>
    subst hk
    exact ⟨path, by simp [objects]⟩
  | @member key v k members hm _ ih =>
    obtain ⟨p, hp⟩ := ih (path ++ "/" ++ key) hk
    exact ⟨p, List.mem_cons_of_mem _ (mem_objectsOfMembers hm hp)⟩
  | elem he _ ih => exact mem_objectsOfElems he (fun path => ih path hk) 0

mutual
/-- Nothing but objects of the value is looked at. -/
theorem holds_of_mem_objects {path : String} {o : String × Members} :
    (j : Json) → o ∈ objects path j → j.Holds (.obj o.2)
  | .obj ms, h => by
    rcases List.mem_cons.mp h with rfl | h
    · exact .refl _
    · obtain ⟨key, v, hm, hv⟩ := exists_of_mem_objectsOfMembers ms h
      exact .member hm hv
  | .arr es, h => by
    obtain ⟨e, he, hv⟩ := exists_of_mem_objectsOfElems es 0 h
    exact .elem he hv
theorem exists_of_mem_objectsOfMembers {path : String} {o : String × Members} :
    (ms : List (String × Json)) → o ∈ objectsOfMembers path ms →
      ∃ key v, (key, v) ∈ ms ∧ v.Holds (.obj o.2)
  | (key, v) :: ms, h => by
    rcases List.mem_append.mp h with h | h
    · exact ⟨key, v, List.mem_cons_self .., holds_of_mem_objects v h⟩
    · obtain ⟨key', v', hm, hv⟩ := exists_of_mem_objectsOfMembers ms h
      exact ⟨key', v', List.mem_cons_of_mem _ hm, hv⟩
theorem exists_of_mem_objectsOfElems {path : String} {o : String × Members} :
    (es : List Json) → (i : Nat) → o ∈ objectsOfElems path i es →
      ∃ e ∈ es, e.Holds (.obj o.2)
  | e :: es, i, h => by
    rcases List.mem_append.mp h with h | h
    · exact ⟨e, List.mem_cons_self .., holds_of_mem_objects e h⟩
    · obtain ⟨e', he, hv⟩ := exists_of_mem_objectsOfElems es (i + 1) h
      exact ⟨e', List.mem_cons_of_mem _ he, hv⟩
end

/-- What is found on a reference without a target. A file that is there but cannot be loaded is left
to its own check. -/
def findingOf (t : FileTree) (dir : Path) (ref : String) : Ref.Fault → Option Finding
  | .unsupportedFormat ref => some (.unsupportedRef ref)
  | .unloadable file => if t.has (dir.join file) then none else some (.fileNotFound file)
  | .targetNotFound fragment =>
    match Ref.Target.ofText ref with
    | .inside _ => some (.anchorNotFound ref)
    | .outside file _ => some (.anchorNotFoundIn file fragment)

theorem load_of_not_has {t : FileTree} {p : Path} (h : t.has p = false) :
    t.source.load p = .error (.notFound p) := by
  rw [Source.load, FileTree.has_source, if_neg (by simpa using h)]

/-- A reference is judged by what resolving it in its own file comes to. -/
theorem checkRef_eq (t : FileTree) (site : Site) (ref : String) :
    checkRef t site.base site.document ref =
      match ((Ref.tryResolve site ref).run t.source Cache.empty).value with
      | .ok _ => none
      | .error fault => findingOf t site.base ref fault := by
  rw [Ref.value_tryResolve]
  unfold checkRef
  cases htarget : Ref.Target.ofText ref with
  | inside pointer =>
    dsimp only
    split
    · unfold Ref.navigate
      cases site.document.navigate pointer <;> simp [findingOf, htarget]
    · rfl
  | outside file fragment =>
    dsimp only
    rw [Cache.view_empty]
    cases hhas : t.has (site.base.join file) with
    | false => simp [load_of_not_has hhas, Except.toOption, findingOf, hhas]
    | true =>
      cases t.source.load (site.base.join file) with
      | error error => simp [Except.toOption, findingOf, hhas]
      | ok other =>
        simp only [↓reduceIte, Except.toOption, Ref.navigate]
        cases other.navigate fragment <;> simp [findingOf, htarget]

/-- Whatever is wrong with a reference is an error. -/
theorem severity_of_findingOf {t : FileTree} {dir : Path} {ref : String} {fault : Ref.Fault}
    {f : Finding} (h : findingOf t dir ref fault = some f) : f.severity = .error := by
  cases fault with
  | unsupportedFormat ref =>
    obtain rfl := Option.some.inj h
    rfl
  | unloadable file =>
    rw [findingOf, Option.ite_none_left_eq_some] at h
    obtain rfl := Option.some.inj h.2
    rfl
  | targetNotFound fragment =>
    rw [findingOf] at h
    split at h <;>
    · obtain rfl := Option.some.inj h
      rfl

theorem severity_of_checkRef {t : FileTree} {dir : Path} {document : Json} {ref : String}
    {f : Finding} (h : checkRef t dir document ref = some f) : f.severity = .error := by
  have hjudged := checkRef_eq t ⟨document, dir⟩ ref
  rw [h] at hjudged
  split at hjudged
  · cases hjudged
  · exact severity_of_findingOf hjudged.symm

/-- The codes of findings on references. -/
def refCodes : List String := ["E002", "E003", "E004"]

theorem code_of_checkRef {t : FileTree} {dir : Path} {document : Json} {ref : String} {f : Finding}
    (h : checkRef t dir document ref = some f) : f.code ∈ refCodes := by
  unfold checkRef at h
  split at h <;> grind [Finding.code, refCodes]

/-- What is found at a node is what is wrong with its reference. -/
theorem refFinding_eq_some_iff {t : FileTree} {dir : Path} {document : Json}
    {node : String × Members} {l : Located} :
    refFinding t dir document node = some l ↔
      ∃ ref, Members.get? Ref.keyword node.2 = some (.str ref) ∧
        ∃ f, checkRef t dir document ref = some f ∧ ⟨node.1 ++ "/$ref", f⟩ = l := by
  unfold refFinding Ref.keyword
  split
  next ref href => simp [href]
  next hnone =>
    have habsent (ref : String) : Members.get? "$ref" node.2 ≠ some (.str ref) :=
      fun href => hnone ref href
    simp [habsent]

/-- The codes of what is wrong with an annotation or with a list of required fields. -/
def annotationCodes : List String := ["W003", "W004", "W005"]

theorem severity_of_annotationCodes {f : Finding} (h : f.code ∈ annotationCodes) :
    f.severity = .warning := by
  cases f <;> simp_all [Finding.code, Finding.severity, annotationCodes]

theorem code_of_checkSkipReason {j : Json} {f : Finding} (h : checkSkipReason j = some f) :
    f.code = "W003" := by
  unfold checkSkipReason at h
  grind [Finding.code]

theorem code_of_checkOverride {j : Json} {f : Finding} (h : checkOverride j = some f) :
    f.code = "W004" := by
  unfold checkOverride at h
  grind [Finding.code]

theorem code_of_annotationFinding {key code : String} {check : Json → Option Finding}
    (hcheck : ∀ {j f}, check j = some f → f.code = code) {node : String × Members} {l : Located}
    (h : l ∈ (annotationFinding key check node).toList) : l.finding.code = code := by
  obtain ⟨f, hf, rfl⟩ := Option.map_eq_some_iff.mp (Option.mem_toList.mp h)
  obtain ⟨j, -, hj⟩ := Option.bind_eq_some_iff.mp hf
  exact hcheck hj

/-- Findings on the annotations of a node come with one code for each key. -/
theorem code_of_annotationFindings {node : String × Members} {l : Located}
    (h : l ∈ annotationFindings node) : l.finding.code = "W003" ∨ l.finding.code = "W004" :=
  (List.mem_append.mp h).imp (code_of_annotationFinding code_of_checkSkipReason)
    (code_of_annotationFinding code_of_checkOverride)

theorem code_of_requiredFindings {properties : Members} {i : Nat} {required : List Json}
    {l : Located} (h : l ∈ requiredFindings properties i required) :
    l.finding.code ∈ annotationCodes := by
  induction required generalizing i with
  | nil => cases h
  | cons entry rest ih => cases entry <;> grind [requiredFindings, Finding.code, annotationCodes]

/-- A finding on a document is on a reference, on an annotation or a required field, or on the
document as a whole. -/
theorem refFinding_or_warning {t : FileTree} {dir : Path} {document : Json} {l : Located}
    (h : l ∈ checkDocument t dir document) :
    (∃ node ∈ objects "" document, refFinding t dir document node = some l) ∨
      l.finding.code ∈ annotationCodes ∨
      l.finding = .noProperties ∧
        ((document.get? "properties").bind Json.members?).getD [] = [] ∨
      l.finding = .noTitle ∧ document.textAt? "title" = none := by
  simp only [checkDocument, documentFindings, List.mem_append] at h
  rcases h with (h | h) | ((h | h) | h)
  · exact .inl (List.mem_filterMap.mp h)
  · obtain ⟨node, -, hnode⟩ := List.mem_flatMap.mp h
    have hcode : l.finding.code ∈ annotationCodes := by
      rcases code_of_annotationFindings hnode with hcode | hcode <;> simp [hcode, annotationCodes]
    exact .inr (.inl hcode)
  · split at h
    next hnone =>
      obtain rfl := List.mem_singleton.mp h
      exact .inr (.inr (.inl ⟨rfl, hnone⟩))
    next => cases h
  · split at h
    next hnone =>
      obtain rfl := List.mem_singleton.mp h
      exact .inr (.inr (.inr ⟨rfl, hnone⟩))
    next => cases h
  · exact .inr (.inl (code_of_requiredFindings h))

/-- The errors in a document are what is found on its references. -/
theorem mem_checkDocument_error_iff {t : FileTree} {dir : Path} {document : Json} {l : Located} :
    (l ∈ checkDocument t dir document ∧ l.finding.severity = .error) ↔
      ∃ node ∈ objects "" document, refFinding t dir document node = some l := by
  constructor
  · rintro ⟨hl, herror⟩
    rcases refFinding_or_warning hl with href | hcode | ⟨hl, -⟩ | ⟨hl, -⟩
    · exact href
    · rw [severity_of_annotationCodes hcode] at herror
      cases herror
    · rw [hl] at herror
      cases herror
    · rw [hl] at herror
      cases herror
  · intro href
    have hmem : l ∈ checkDocument t dir document := by
      simp only [checkDocument, List.mem_append]
      exact .inl (.inl (List.mem_filterMap.mpr href))
    refine ⟨hmem, ?_⟩
    obtain ⟨node, -, hnode⟩ := href
    obtain ⟨ref, -, f, hf, rfl⟩ := refFinding_eq_some_iff.mp hnode
    exact severity_of_checkRef hf

theorem unloadable_of_findingOf {t : FileTree} {dir : Path} {ref : String} {fault : Ref.Fault}
    (h : findingOf t dir ref fault = none) : ∃ file, fault = .unloadable file := by
  cases fault with
  | unsupportedFormat ref => cases h
  | unloadable file => exact ⟨file, rfl⟩
  | targetNotFound fragment =>
    rw [findingOf] at h
    split at h <;> cases h

/-- A reference that passes its check has a target, if the file that it leads to can be loaded. -/
theorem hasTarget_of_checkRef {t : FileTree} {site : Site} {ref : String}
    (h : checkRef t site.base site.document ref = none)
    (hloads : ∀ file fragment, Ref.Target.ofText ref = .outside file fragment →
      ∃ other, t.source.load (site.base.join file) = .ok other) :
    Ref.HasTarget site t.source Cache.empty ref := by
  rw [checkRef_eq] at h
  cases hvalue : ((Ref.tryResolve site ref).run t.source Cache.empty).value with
  | ok node => exact ⟨node, hvalue⟩
  | error fault =>
    rw [hvalue] at h
    obtain ⟨file, rfl⟩ := unloadable_of_findingOf h
    obtain ⟨fragment, htarget, hview⟩ := Ref.view_of_unloadable hvalue
    obtain ⟨other, hother⟩ := hloads file fragment htarget
    rw [Cache.view, hother] at hview
    cases hview

/-- Lint finds no error in the file. -/
def ErrorFree (t : FileTree) (file : Path) : Prop :=
  ∀ l ∈ checkFile t file, l.finding.severity ≠ .error

instance (t : FileTree) (file : Path) : Decidable (ErrorFree t file) :=
  inferInstanceAs (Decidable (∀ l ∈ checkFile t file, l.finding.severity ≠ .error))

theorem ErrorFree.exists_document {t : FileTree} {file : Path} (h : ErrorFree t file) :
    ∃ document, t.source.load file = .ok document := by
  cases hload : t.source.load file with
  | ok document => exact ⟨document, rfl⟩
  | error error =>
    have hne := h ⟨"/", .notLoaded error⟩ (by simp [checkFile, hload])
    exact absurd rfl hne

theorem ErrorFree.checkRef_eq_none {t : FileTree} {file : Path} (h : ErrorFree t file)
    {document : Json} (hdocument : t.source.load file = .ok document) {ms : Members}
    (hms : document.Holds (.obj ms)) {ref : String}
    (href : Members.get? Ref.keyword ms = some (.str ref)) :
    checkRef t file.directory document ref = none := by
  rw [Option.eq_none_iff_forall_ne_some]
  intro f hf
  obtain ⟨p, hp⟩ := exists_mem_objects hms ""
  have hfinding : refFinding t file.directory document (p, ms) = some ⟨p ++ "/$ref", f⟩ :=
    refFinding_eq_some_iff.mpr ⟨ref, href, f, hf, rfl⟩
  have hmem : ⟨p ++ "/$ref", f⟩ ∈ checkFile t file := by
    rw [checkFile, hdocument]
    simp only [checkDocument, List.mem_append, List.mem_filterMap]
    exact .inl (.inl ⟨(p, ms), hp, hfinding⟩)
  exact h _ hmem (severity_of_checkRef hf)

/-- The files that one comes to from a file by its references and theirs, each read from the
directory of the file that it stands in. -/
inductive Reached (t : FileTree) (file : Path) : Path → Prop
  | start : Reached t file file
  | follow {other next : Path} (h : Reached t file other)
      (hnext : next ∈ Command.referenced t other) : Reached t file next

/-- Lint finds no error in the file, nor in any that is reached from it. -/
def Clean (t : FileTree) (file : Path) : Prop := ∀ other, Reached t file other → ErrorFree t other

/-- A list of files that no reference leads out of shows what is reached. -/
theorem clean_of_closed {t : FileTree} {file : Path} {files : List Path} (hfile : file ∈ files)
    (h : ∀ other ∈ files, ErrorFree t other ∧ ∀ next ∈ Command.referenced t other, next ∈ files) :
    Clean t file := by
  intro other hother
  suffices other ∈ files from (h other this).1
  induction hother with
  | start => exact hfile
  | follow _ hnext ih => exact (h _ ih).2 _ hnext

theorem mem_referenced {t : FileTree} {file : Path} {document : Json}
    (hdocument : t.source.load file = .ok document) {ms : Members}
    (hms : document.Holds (.obj ms)) {ref other fragment : String}
    (href : Members.get? Ref.keyword ms = some (.str ref))
    (htarget : Ref.Target.ofText ref = .outside other fragment) :
    file.directory.join other ∈ Command.referenced t file := by
  obtain ⟨p, hp⟩ := exists_mem_objects hms ""
  rw [Command.referenced, hdocument]
  refine List.mem_filterMap.mpr ⟨(p, ms), hp, ?_⟩
  simp only [href, Option.bind_some, Json.text?, htarget]

/-- In a clean project every reference has a target, seen from the file that it stands in. -/
theorem Clean.hasTarget {t : FileTree} {file other : Path} (h : Clean t file)
    (hother : Reached t file other) {document : Json}
    (hdocument : t.source.load other = .ok document) {j : Json} (hj : document.Holds j)
    {ref : String} (href : j.textAt? Ref.keyword = some ref) :
    Ref.HasTarget ⟨document, other.directory⟩ t.source Cache.empty ref := by
  obtain ⟨v, hv, htext⟩ := Option.bind_eq_some_iff.mp href
  cases j with
  | obj ms =>
    cases v with
    | str text =>
      obtain rfl : text = ref := Option.some.inj htext
      have hcheck := (h other hother).checkRef_eq_none hdocument hj hv
      refine @hasTarget_of_checkRef t ⟨document, other.directory⟩ text hcheck ?_
      intro next fragment htarget
      have hnext := mem_referenced hdocument hj hv htarget
      exact (h _ (.follow hother hnext)).exists_document
    | _ => cases htext
  | _ => cases hv

end OnchainSchema.Lint
