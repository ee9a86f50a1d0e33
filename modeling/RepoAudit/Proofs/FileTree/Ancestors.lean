import RepoAudit.Proofs.FileTree.Sight
import Mathlib

/-!
# The directories above a file

A path above another one starts where the other starts, or outside the volume.  When the other leads
to a file, everything above it in the volume is a directory.
-/

namespace RepoAudit

namespace Path

end Path

namespace Volume

variable {v : Volume} {path above : String} {here there real : Location}
variable {parts parts' : List String} {top : FileTree} {links : Nat}

end Volume
end RepoAudit
