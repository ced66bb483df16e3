import NqcBlocks.Text.Blank

/-!
# File names

A program is written to a file named after it. `cleanFileName` drops the characters that no common
file system allows in a name, and blanks at the ends; a name of which nothing is left becomes the
default.
-/

namespace NqcBlocks

def defaultProjectName : String := "Untitled"

def isForbiddenInName (c : Char) : Bool :=
  c.toNat < 32 || ['<', '>', ':', '"', '/', '\\', '|', '?', '*'].contains c

def cleanFileName (name : String) (default : String := defaultProjectName) : String :=
  let cleaned := Text.trimChars Text.isBlank (name.toList.filter fun c => !isForbiddenInName c)
  if cleaned.isEmpty then default else String.ofList cleaned

end NqcBlocks
