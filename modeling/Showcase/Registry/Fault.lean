import Showcase.Text.CodePoint

/-!
# Faults of a registry text

The ways in which a registry text can fail to be read.
-/

namespace Showcase.Registry

inductive Fault where
  | unterminatedString
  | unterminatedComment
  | unbalanced
  | interpolation
  | malformedEscape
  | importWithoutSource
  | listNotFound (name : Text)
  | emptyElement
  deriving DecidableEq, Repr

def Fault.message : Fault → Text
  | unterminatedString => "Unterminated string in registry".toList
  | unterminatedComment => "Unterminated comment in registry".toList
  | unbalanced => "Unbalanced delimiters in registry".toList
  | interpolation =>
      "Template interpolation is not supported in registry values".toList
  | malformedEscape => "Malformed escape in registry string".toList
  | importWithoutSource => "Import statement without a source path".toList
  | listNotFound name => "Registry list '".toList ++ name ++ "' not found".toList
  | emptyElement => "Empty element in registry list".toList

end Showcase.Registry
