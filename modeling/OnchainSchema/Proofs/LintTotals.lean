import OnchainSchema.Command.Run
import OnchainSchema.Proofs.TextPaths

/-!
Totals of a lint report. A file has the status of its worst finding, the totals are counts over the
findings of all files, and the command that lints succeeds exactly if no file fails, unless it shall
print paths as JSON that are no text.
-/
namespace OnchainSchema

namespace Lint

namespace FileReport

variable {r : FileReport} {s : Severity}

end FileReport

namespace Report

variable {r : Report} {s : Severity}

end Report

/-- Files that stand in the order of paths are taken as they stand. -/
theorem filesOf_of_pairwise {t : FileTree} {path : Path} {e : Entry} (h : t.entry? path = some e)
    (hsorted : (filesAt t path e).Pairwise (Path.le · · = true)) :
    filesOf t path = filesAt t path e := by
  rw [filesOf, h]
  exact List.mergeSort_of_pairwise hsorted

end Lint

namespace Command

variable {t : FileTree} {c : LintCommand}

end Command

open Lint

section Samples

end Samples

end OnchainSchema
