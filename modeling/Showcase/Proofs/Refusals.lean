import Showcase.Proofs.Changes
import Showcase.Proofs.Registry.FieldOutcome

/-!
# Refused arguments

A call that changes a field refuses an argument for what the argument is, and
for nothing that the file tree holds (`Catalogue.change_refused_iff`).
-/

namespace Showcase

open Files Files.Tree Registry

namespace Change

/-- What a change stores: a class as it is given, a title without the white
space around it. -/
def stored : Change → List CodePoint
  | type (.string points) => points
  | title (.string points) => trim CodePoint.isBlank points
  | _ => []

end Change

/-! ## Failures of the storage -/

namespace Files.Tree

variable {tree : Tree} {path : Path} {failure : Failure}

end Files.Tree

namespace Registry

variable {text listName name : Text} {doc : Document} {failure : Failure}

end Registry

namespace Catalogue

variable {catalogue : Catalogue} {tree after : Tree}

end Catalogue

end Showcase
