import OnchainSchema.Command.Run
import OnchainSchema.Proofs.Addresses
import OnchainSchema.Proofs.CompileErrors
import OnchainSchema.Proofs.WrittenFiles

/-!
The compile command. It does all of its work or nothing of it: a command that fails prints nothing
and leaves every file as it is, and one that succeeds prints or writes the record and touches no
other file. The first thing that is wrong gives the exit code.
-/
namespace OnchainSchema

namespace FileTree

theorem exists_fault_of_not_has {t : FileTree} {p : Path} (h : t.has p = false) :
    ∃ fault, t.read p = .error fault := by
  have hentry : t.entry? p = none := by
    rwa [has, Option.isSome_eq_false_iff, Option.isNone_iff_eq_none] at h
  unfold entry? at hentry
  unfold read
  cases hlocate : t.locate p with
  | error fault => exact ⟨fault, rfl⟩
  | ok place =>
    rw [hlocate] at hentry
    dsimp only at hentry ⊢
    rw [hentry]
    exact ⟨.missing, rfl⟩

/-- A document is loaded from a tree as its file is read. -/
theorem load_source (t : FileTree) (p : Path) :
    t.source.load p =
      match t.read p with
      | .ok text => Json.load text
      | .error fault => .error (if t.has p then .unreadable p fault else .notFound p) := by
  rw [Source.load, source]
  dsimp only
  split
  next => cases t.read p <;> rfl
  next hhas =>
    obtain ⟨fault, hfault⟩ := exists_fault_of_not_has (eq_false_of_ne_true hhas)
    rw [hfault]

end FileTree

theorem CompileError.exitCode_ne_zero (error : CompileError) : error.exitCode ≠ 0 := by
  cases error with
  | load error => cases error <;> exact Nat.succ_ne_zero _
  | _ => exact Nat.succ_ne_zero _

open Compile Command

namespace CompileCommand

variable (c : CompileCommand) (t : FileTree)

def options (resolver : Option Address) : Options := ⟨c.registry, c.name, c.revocable, resolver⟩

/-- The compilation of the file, with an empty cache and the documents of the tree. -/
def compiled : Except CompileError Compilation :=
  match parseResolver? c.resolver with
  | .error error => .error error
  | .ok resolver => ((compileFile c.file (c.options resolver)).run t.source Cache.empty).value

def recordText (compilation : Compilation) : String :=
  compilation.record.write (if c.pretty then .pretty else .compact)

/-- The identifier on a line of its own, if it is asked for. -/
def uidLine (compilation : Compilation) : String :=
  if c.printUid then compilation.uid ++ "\n" else ""

def MalformedResolver : Prop := ∃ value, c.resolver = some value ∧ ¬ Address.Spelled value

def Unreadable : Prop := ∃ fault, t.read c.file = .error fault

/-- The file holds no document, or one without a name or without properties. -/
def Refused : Prop :=
  ∃ text, t.read c.file = .ok text ∧ ∀ document, Json.parse text = .ok document →
    Unnamed document (c.options none) ∨ ¬ HasProperties document

/-- The record cannot be written where it shall go. -/
def Unwritable : Prop :=
  ∃ path compilation fault, c.output = some path ∧ c.compiled t = .ok compilation ∧
    t.write path (c.recordText compilation) = .error fault

variable {c t}

theorem parseResolver?_cases (c : CompileCommand) :
    (c.MalformedResolver ∧
      ∃ value, parseResolver? c.resolver = .error (.invalidResolver value)) ∨
    (¬ c.MalformedResolver ∧ ∃ resolver, parseResolver? c.resolver = .ok resolver) := by
  unfold MalformedResolver parseResolver?
  cases c.resolver with
  | none =>
    refine .inr ⟨?_, none, rfl⟩
    rintro ⟨value, hvalue, -⟩
    cases hvalue
  | some value =>
    dsimp only
    rcases parseResolver_cases value with ⟨hspelled, a, ha⟩ | ⟨hspelled, herror⟩
    · rw [ha]
      refine .inr ⟨?_, some a, rfl⟩
      rintro ⟨value', hvalue, hnot⟩
      cases hvalue
      exact hnot hspelled
    · rw [herror]
      exact .inl ⟨⟨value, rfl, hspelled⟩, value, rfl⟩

theorem compiled_eq {resolver : Option Address} (h : parseResolver? c.resolver = .ok resolver) :
    c.compiled t =
      match t.read c.file with
      | .error fault =>
        .error (.load (if t.has c.file then .unreadable c.file fault else .notFound c.file))
      | .ok text =>
        match Json.parse text with
        | .error fault => .error (.load (.invalidJson fault))
        | .ok document => ((compile ⟨document, c.file.directory⟩ (c.options resolver)).run
            t.source Cache.empty).value := by
  unfold compiled
  rw [h]
  dsimp only
  rw [run_compileFile, t.load_source]
  cases t.read c.file with
  | error fault => rfl
  | ok text =>
    dsimp only
    rw [Json.load]
    cases Json.parse text <;> rfl

/-- What is wrong with the command or its file, in the order in which it is noticed. -/
theorem compiled_cases (c : CompileCommand) (t : FileTree) :
    (c.MalformedResolver ∧ ∃ error, c.compiled t = .error error ∧ error.exitCode = 2) ∨
    (¬ c.MalformedResolver ∧ c.Unreadable t ∧
      ∃ error, c.compiled t = .error error ∧ error.exitCode = 3) ∨
    (¬ c.MalformedResolver ∧ ¬ c.Unreadable t ∧ c.Refused t ∧
      ∃ error, c.compiled t = .error error ∧ error.exitCode = 2) ∨
    (¬ c.MalformedResolver ∧ ¬ c.Unreadable t ∧ ¬ c.Refused t ∧
      ∃ compilation, c.compiled t = .ok compilation) := by
  -- The resolver is read before any file is.
  rcases c.parseResolver?_cases with ⟨hmalformed, value, hvalue⟩ | ⟨hresolver, resolver, hr⟩
  · refine .inl ⟨hmalformed, .invalidResolver value, ?_, rfl⟩
    rw [compiled, hvalue]
  have hcompiled := compiled_eq (t := t) hr
  cases hread : t.read c.file with
  | error fault =>
    rw [hread] at hcompiled
    refine .inr (.inl ⟨hresolver, ⟨fault, hread⟩, _, hcompiled, ?_⟩)
    cases t.has c.file <;> rfl
  | ok text =>
    have hreadable : ¬ c.Unreadable t := by
      rintro ⟨fault, hfault⟩
      rw [hread] at hfault
      cases hfault
    have hrefused : c.Refused t ↔ ∀ document, Json.parse text = .ok document →
        Unnamed document (c.options none) ∨ ¬ HasProperties document := by
      unfold Refused
      simp only [hread, Except.ok.injEq, exists_eq_left']
    rw [hread] at hcompiled
    cases hdocument : Json.parse text with
    | error fault =>
      have hno : c.Refused t := hrefused.mpr fun document h => by
        rw [hdocument] at h
        cases h
      dsimp only at hcompiled
      rw [hdocument] at hcompiled
      exact .inr (.inr (.inl ⟨hresolver, hreadable, hno, _, hcompiled, rfl⟩))
    | ok document =>
      simp only [hdocument, Except.ok.injEq, forall_eq'] at hrefused hcompiled
      rcases run_compile_cases ⟨document, c.file.directory⟩ (c.options resolver) t.source
        Cache.empty with ⟨hname, ho⟩ | ⟨-, hnone, ho⟩ | ⟨hname, hsome, compilation, ho⟩
      · rw [ho] at hcompiled
        have hno := hrefused.mpr (.inl hname)
        exact .inr (.inr (.inl ⟨hresolver, hreadable, hno, _, hcompiled, rfl⟩))
      · rw [ho] at hcompiled
        have hno := hrefused.mpr (.inr hnone)
        exact .inr (.inr (.inl ⟨hresolver, hreadable, hno, _, hcompiled, rfl⟩))
      · rw [ho] at hcompiled
        refine .inr (.inr (.inr ⟨hresolver, hreadable, ?_, compilation, hcompiled⟩))
        rw [hrefused]
        rintro (hunnamed | hnone)
        · exact hname hunnamed
        · exact hnone hsome

theorem run_of_error {error : CompileError} (h : c.compiled t = .error error) :
    ∃ problem, run t (.compile c) = fail t error.exitCode problem := by
  unfold compiled at h
  cases hresolver : parseResolver? c.resolver with
  | error fault =>
    rw [hresolver] at h
    cases h
    refine ⟨": " ++ error.message, ?_⟩
    rw [run, runCompile, hresolver]
  | ok resolver =>
    rw [hresolver] at h
    dsimp only [options] at h
    refine ⟨": " ++ c.file.text ++ ": " ++ error.message, ?_⟩
    rw [run, runCompile, hresolver]
    dsimp only
    rw [h]

theorem run_of_ok {compilation : Compilation} (h : c.compiled t = .ok compilation) :
    run t (.compile c) =
      match c.output with
      | none => succeed t (c.recordText compilation ++ "\n" ++ c.uidLine compilation)
      | some path =>
        match t.write path (c.recordText compilation) with
        | .ok t' => succeed t' (c.uidLine compilation)
        | .error fault => fail t 3 (" writing to " ++ path.text ++ ": " ++ fault.message) := by
  unfold compiled at h
  cases hresolver : parseResolver? c.resolver with
  | error fault =>
    rw [hresolver] at h
    cases h
  | ok resolver =>
    rw [hresolver] at h
    dsimp only [options] at h
    rw [run, runCompile, hresolver]
    dsimp only
    rw [h]
    rfl

/-- The three ways a run of the command ends. -/
theorem run_cases (c : CompileCommand) (t : FileTree) :
    (∃ exit problem, exit ≠ 0 ∧ run t (.compile c) = fail t exit problem) ∨
    ∃ compilation, c.compiled t = .ok compilation ∧
      ((c.output = none ∧ run t (.compile c) =
          succeed t (c.recordText compilation ++ "\n" ++ c.uidLine compilation)) ∨
        ∃ path t', c.output = some path ∧ t.write path (c.recordText compilation) = .ok t' ∧
          run t (.compile c) = succeed t' (c.uidLine compilation)) := by
  cases hcompiled : c.compiled t with
  | error error =>
    obtain ⟨problem, hrun⟩ := run_of_error hcompiled
    exact .inl ⟨error.exitCode, problem, error.exitCode_ne_zero, hrun⟩
  | ok compilation =>
    have hrun := run_of_ok hcompiled
    cases hout : c.output with
    | none =>
      rw [hout] at hrun
      exact .inr ⟨compilation, rfl, .inl ⟨rfl, hrun⟩⟩
    | some path =>
      rw [hout] at hrun
      dsimp only at hrun
      cases hwrite : t.write path (c.recordText compilation) with
      | error fault =>
        rw [hwrite] at hrun
        exact .inl ⟨3, _, by decide, hrun⟩
      | ok t' =>
        rw [hwrite] at hrun
        exact .inr ⟨compilation, rfl, .inr ⟨path, t', rfl, hwrite, hrun⟩⟩

open Classical in
/-- The exit code is that of the first thing that is wrong. -/
theorem exit_run (c : CompileCommand) (t : FileTree) :
    (run t (.compile c)).exit =
      if c.MalformedResolver then 2
      else if c.Unreadable t then 3
      else if c.Refused t then 2
      else if c.Unwritable t then 3
      else 0 := by
  have hcode {error : CompileError} (h : c.compiled t = .error error) :
      (run t (.compile c)).exit = error.exitCode := by
    obtain ⟨problem, hrun⟩ := run_of_error h
    rw [hrun]
    rfl
  rcases compiled_cases c t with ⟨hmalformed, error, herror, h2⟩ |
    ⟨hresolver, hunreadable, error, herror, h3⟩ |
    ⟨hresolver, hreadable, hrefused, error, herror, h2⟩ |
    ⟨hresolver, hreadable, haccepted, compilation, hok⟩
  · rw [hcode herror, h2, if_pos hmalformed]
  · rw [hcode herror, h3, if_neg hresolver, if_pos hunreadable]
  · rw [hcode herror, h2, if_neg hresolver, if_neg hreadable, if_pos hrefused]
  · rw [if_neg hresolver, if_neg hreadable, if_neg haccepted, run_of_ok hok]
    have hunwritable : c.Unwritable t ↔ ∃ path fault, c.output = some path ∧
        t.write path (c.recordText compilation) = .error fault := by
      unfold Unwritable
      rw [hok]
      simp
    rw [hunwritable]
    cases c.output with
    | none => simp [succeed]
    | some path =>
      cases hwrite : t.write path (c.recordText compilation) <;> simp [hwrite, succeed, fail]

/-- The record stands in the file at the path, and nothing else has changed. -/
def Delivered (t t' : FileTree) (path : Path) (text : String) : Prop :=
  t'.read path = .ok text ∧ t'.cwd = t.cwd ∧
    ∃ place, t.locate path = .ok place ∧ t'.locate path = .ok place ∧
      ∀ other, other ≠ place → t'.content? other = t.content? other

theorem delivered_of_write {t t' : FileTree} {path : Path} {text : String}
    (h : t.write path text = .ok t') : Delivered t t' path text := by
  obtain ⟨hcwd, place, hbefore, hafter, hcontent⟩ := FileTree.write_effect h
  refine ⟨FileTree.read_write h, hcwd, place, hbefore, hafter, fun other hother => ?_⟩
  rw [hcontent, if_neg hother]

open Classical in
/-- A command that fails prints nothing and leaves all files alone. One that succeeds has compiled
its file, prints the record or writes it where it is asked for, and prints the identifier if it is
asked for. The exit code is that of the first thing that is wrong: the resolver, then the file, then
the document in it, then the place for the record. -/
theorem all_or_nothing (c : CompileCommand) (t : FileTree) :
    let a := run t (.compile c)
    (a.exit ≠ 0 → a.stdout = "" ∧ a.tree = t) ∧
    (a.exit = 0 → ∃ compilation, c.compiled t = .ok compilation ∧
      ((c.output = none ∧ a.tree = t ∧
          a.stdout = c.recordText compilation ++ "\n" ++ c.uidLine compilation) ∨
        ∃ path, c.output = some path ∧ Delivered t a.tree path (c.recordText compilation) ∧
          a.stdout = c.uidLine compilation)) ∧
    a.exit =
      if c.MalformedResolver then 2
      else if c.Unreadable t then 3
      else if c.Refused t then 2
      else if c.Unwritable t then 3
      else 0 := by
  refine ⟨?_, ?_, exit_run c t⟩
  · intro hexit
    rcases run_cases c t with ⟨exit, problem, -, hrun⟩ |
      ⟨compilation, -, ⟨-, hrun⟩ | ⟨path, t', -, -, hrun⟩⟩
    · rw [hrun]
      exact ⟨rfl, rfl⟩
    · exact absurd (congrArg Answer.exit hrun) hexit
    · exact absurd (congrArg Answer.exit hrun) hexit
  · intro hexit
    rcases run_cases c t with ⟨exit, problem, hnonzero, hrun⟩ |
      ⟨compilation, hok, ⟨hout, hrun⟩ | ⟨path, t', hout, hwrite, hrun⟩⟩
    · exact absurd ((congrArg Answer.exit hrun).symm.trans hexit) hnonzero
    · rw [hrun]
      exact ⟨compilation, hok, .inl ⟨hout, rfl, rfl⟩⟩
    · rw [hrun]
      exact ⟨compilation, hok, .inr ⟨path, hout, delivered_of_write hwrite, rfl⟩⟩

section Samples

/-- A schema file and the record of an older one. -/
def recordedTree : FileTree := ⟨.dir [
  ("review.json", .file (Json.compact (reviewSite [("score", typed "integer")]).document).toUTF8),
  ("record.json", .file "old".toUTF8)], []⟩

def reviewCommand (resolver : Option String) : CompileCommand :=
  ⟨⟨"review.json"⟩, .schemaOnly, none, some true, resolver, some ⟨"record.json"⟩, false, false⟩

def reviewRecord : String :=
  "\x7b\"name\":\"Review\",\"schema\":\"uint256 score\",\"revocable\":true\x7d"

/-- The old record is replaced, unless the command fails. -/
theorem record_replaced :
    let a := run recordedTree (.compile (reviewCommand none))
    a.exit = 0 ∧ a.tree.read ⟨"record.json"⟩ = .ok reviewRecord ∧
      a.tree.content? ["review.json"] = recordedTree.content? ["review.json"] ∧
    (run recordedTree (.compile (reviewCommand (some "0x12")))).exit = 2 ∧
    (run recordedTree (.compile (reviewCommand (some "0x12")))).tree = recordedTree := by
  intro a
  have hexit : a.exit = 0 := by decide +kernel
  have hrecord : ((reviewCommand none).compiled recordedTree).toOption.map
      (reviewCommand none).recordText = some reviewRecord := by decide +kernel
  have hplace : (recordedTree.locate ⟨"record.json"⟩).toOption =
      some [OsText.ofString "record.json"] := by
    decide +kernel
  have hmalformed : (run recordedTree (.compile (reviewCommand (some "0x12")))).exit = 2 := by
    decide +kernel
  obtain ⟨-, hdone, -⟩ := all_or_nothing (reviewCommand none) recordedTree
  obtain ⟨hnothing, -, -⟩ := all_or_nothing (reviewCommand (some "0x12")) recordedTree
  obtain ⟨compilation, hok, ⟨hnone, -⟩ | ⟨path, hout, hdelivered, -⟩⟩ := hdone hexit
  · cases hnone
  cases hout
  obtain ⟨hread, -, place, hlocate, -, hother⟩ := hdelivered
  rw [hok] at hrecord
  rw [hlocate] at hplace
  cases hplace
  have htext : (reviewCommand none).recordText compilation = reviewRecord := Option.some.inj hrecord
  rw [htext] at hread
  refine ⟨hexit, hread, hother _ (by decide), hmalformed, (hnothing ?_).2⟩
  rw [hmalformed]
  decide

end Samples

end CompileCommand

end OnchainSchema
