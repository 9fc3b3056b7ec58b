import OnchainSchema.Proofs.CommandLine
import OnchainSchema.Proofs.CompileCommand

/-!
The published record. It holds what its identifier has been derived from, and not what was asked
for: whoever has the record derives the same identifier again, also by typing its values as the
options of a command.
-/
namespace OnchainSchema

open Command

namespace Command

end Command

namespace Record

end Record

namespace Compile

variable (options : Options) (name : String) (b : Build)

variable {options}

end Compile

section Samples

open CompileCommand

end Samples

end OnchainSchema
