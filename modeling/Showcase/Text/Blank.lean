import Showcase.Text.CodePoint

/-!
# White space

The characters that separate tokens and that titles, ids and numbers are
stripped of: those with the Unicode property `White_Space`, and the four
information separators U+001C to U+001F.
-/

namespace Showcase

def blankRanges : List (Nat × Nat) :=
  [(0x09, 0x0D), (0x1C, 0x20), (0x85, 0x85), (0xA0, 0xA0), (0x1680, 0x1680),
   (0x2000, 0x200A), (0x2028, 0x2029), (0x202F, 0x202F), (0x205F, 0x205F),
   (0x3000, 0x3000)]

def isBlank (c : Char) : Bool := covers blankRanges c.toNat

/-- White space among code points; a surrogate is never blank. -/
def CodePoint.isBlank (p : CodePoint) : Bool := covers blankRanges p.val

def trim {α : Type} (p : α → Bool) (xs : List α) : List α :=
  ((xs.dropWhile p).reverse.dropWhile p).reverse

def strip (text : Text) : Text := trim isBlank text

end Showcase
