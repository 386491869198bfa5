import Showcase.Proofs.Files.Stored
import Showcase.Proofs.Refusals
import Showcase.Proofs.Remaining

/-!
# What a change answers

The answer to a call that changes a field depends on its arguments, on the
document that is stored, on the records with the id and on how the field is
written there, in this order (`Catalogue.change_table`).
-/

namespace Showcase

open Files Registry

namespace Catalogue

variable {catalogue : Catalogue} {tree after : Tree} {bytes? : Option ByteArray}
  {text : Text} {doc : Document} {record : Record} {ids : List CodePoint}

/-- The document that the bytes of a registry are read as. -/
def Reads (catalogue : Catalogue) (bytes? : Option ByteArray) (doc : Document) :
    Prop :=
  ∃ text, bytes?.bind Utf8.decode? = some text ∧
    scan text catalogue.listName = .ok doc

section Run

variable {id : Json} {change : Change}

end Run

end Catalogue

end Showcase
