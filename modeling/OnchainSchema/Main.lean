import OnchainSchema.Command.Reach

/-! The command line on the files of the system. -/
namespace OnchainSchema.Command

/-- What the system allows with a directory. Whether it can be extended shows when a file is put into
it. -/
def accessOf (dir : String) : IO DirAccess := do
  let list ← try
      discard { (← IO.currentDir) with toString := dir }.readDir
      pure true
    catch _ => pure false
  -- a directory that can be searched finds itself
  let search ← { (← IO.currentDir) with toString := dir ++ "/." }.pathExists
  return ⟨list, search, true⟩

/-- Brings in what stands at a path and on the way to it, but not what is in it. -/
partial def bringOutline (t : FileTree) (p : Path) : IO FileTree := do
  let t ← match p.parent? with
    | some dir => bringOutline t dir
    | none => pure t
  if p.raw = "" ∨ t.has p then return t
  let place := { (← IO.currentDir) with toString := p.text }
  if ← place.isDir then return t.put p (.dir [] (← accessOf p.text))
  if ← place.pathExists then return t.put p (.file ByteArray.empty)
  return t

/-- A directory with the names of all below it, files without their contents. -/
partial def listing (dir : String) : IO Entry := do
  let access ← accessOf dir
  if !access.list then return .dir [] access
  let entries ← { (← IO.currentDir) with toString := dir }.readDir
  let below ← entries.toList.mapM fun e => do
    let path := dir ++ "/" ++ e.fileName
    let entry ← if ← { (← IO.currentDir) with toString := path }.isDir then listing path
      else pure (.file ByteArray.empty)
    return (OsText.ofString e.fileName, entry)
  return .dir below access

def bringListing (t : FileTree) (p : Path) : IO FileTree := do
  let t ← bringOutline t p
  if t.isDir p then return t.put p (← listing p.text) else return t

/-- Brings in what a file holds. One that cannot be read is closed. -/
def bringContent (t : FileTree) (p : Path) : IO FileTree := do
  let t ← bringOutline t p
  if t.isDir p || !t.has p then return t
  try return t.put p (.file (← IO.FS.readBinFile p.text))
  catch _ => return t.put p (.file ByteArray.empty .closed)

/-- Brings in the contents that a command reads, until nothing new comes up. -/
partial def gather (command : Command) (t : FileTree) (known : List Path) : IO FileTree := do
  let wanted := ((reach t command).filter (· ∉ known)).eraseDups
  if wanted.isEmpty then return t
  gather command (← wanted.foldlM bringContent t) (known ++ wanted)

def workingDirectory : IO (List OsText) := do
  return ((Text.split '/' (toString (← IO.currentDir))).filter (· ≠ "")).map OsText.ofString

def usage : String :=
  "usage: attestation-schema compile|uid|did-index|lint [options]\n"

/-- Writes the file that a command has written, or says why the system does not let it. -/
def deliver (answer : Answer) : Command → IO Answer
  | .compile c => do
    let some path := c.output | return answer
    let .ok text := answer.tree.read path | return answer
    if answer.exit ≠ 0 then return answer
    try
      IO.FS.writeFile path.text text
      return answer
    catch problem =>
      return fail answer.tree 3 (" writing to " ++ path.text ++ ": " ++ toString problem)
  | _ => return answer

/-- Carries out a command and gives its exit code. -/
def execute (command : Command) : IO UInt32 := do
  let t ← (listed command).foldlM bringListing (FileTree.empty (← workingDirectory))
  let t ← gather command t []
  let t ← (targets command).foldlM bringOutline t
  let answer ← deliver (run t command) command
  IO.print answer.stdout
  IO.eprint answer.stderr
  return answer.exit.toUInt32

end OnchainSchema.Command

def main (args : List String) : IO UInt32 := do
  match OnchainSchema.Command.parse? args with
  | some command => OnchainSchema.Command.execute command
  | none =>
    IO.eprint OnchainSchema.Command.usage
    return 2
