import OnchainSchema.Command.Run

/-! The paths that a command reads, as far as a tree shows them, and those it lists and writes. -/
namespace OnchainSchema.Command

def pathsOf (j : Journal) : List Path :=
  j.filterMap fun
    | .checked path | .opened path => some path
    | _ => none

/-- The files that the references of a file lead to. -/
def referenced (t : FileTree) (file : Path) : List Path :=
  match t.source.load file with
  | .error _ => []
  | .ok document => (Lint.objects "" document).filterMap fun node =>
    match (Members.get? Ref.keyword node.2).bind Json.text? with
    | some ref =>
      match Ref.Target.ofText ref with
      | .outside other _ => some (file.directory.join other)
      | .inside _ => none
    | none => none

/-- The file and every file that the compilation asks for. -/
def compileReach (t : FileTree) (c : CompileCommand) : List Path :=
  let o := (compileFile c.file ⟨c.registry, some "name", c.revocable, none⟩).run t.source Cache.empty
  pathsOf o.journal

def lintReach (t : FileTree) (c : LintCommand) : List Path :=
  let files := Lint.filesOf t c.path
  files ++ files.flatMap (referenced t)

/-- The files whose contents a command reads. -/
def reach (t : FileTree) : Command → List Path
  | .compile c => compileReach t c
  | .lint c => lintReach t c
  | _ => []

/-- The paths below which a command looks for files. -/
def listed : Command → List Path
  | .lint c => [c.path]
  | _ => []

/-- The files that a command writes. -/
def targets : Command → List Path
  | .compile c => c.output.toList
  | _ => []

end OnchainSchema.Command
