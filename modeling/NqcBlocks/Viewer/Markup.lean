import NqcBlocks.Text.Emoji
import NqcBlocks.Viewer.Label

/-!
# Marked up names

A name that a tree shows as plain text may ask for a style by a tag in brackets; the tag itself is not
shown. A tag starts with a small letter or with one of a few signs, so that other brackets stay as they
are, and a backslash before a tag makes it plain text. In the pieces of plain text between the tags
emoji are put in for their names.
-/

namespace NqcBlocks.Viewer

def startsTag (c : Char) : Bool := c.isLower || c == '#' || c == '/' || c == '@'

def afterTag? (cs : List Char) : Option (List Char) :=
  match cs with
  | [] => none
  | c :: rest =>
    if startsTag c then
      match rest.dropWhile fun c => c != ']' && c != '[' with
      | ']' :: after => some after
      | _ => none
    else none

def tagText (cs : List Char) : List Char := cs.takeWhile (· != ']') ++ [']']

def plainPieces : Nat → List Char → Nat → List Char → List (List Char)
  | 0, piece, slashes, cs => [piece.reverse ++ List.replicate slashes '\\' ++ cs]
  | _ + 1, piece, slashes, [] => [piece.reverse ++ List.replicate slashes '\\']
  | fuel + 1, piece, slashes, c :: cs =>
    if c == '\\' then plainPieces fuel piece (slashes + 1) cs
    else if c == '[' then
      match afterTag? cs with
      | none => plainPieces fuel ('[' :: List.replicate (slashes - 1) '\\' ++ piece) 0 cs
      | some after =>
        [piece.reverse, List.replicate (slashes / 2) '\\',
          if slashes % 2 == 1 then '[' :: tagText cs else []] ++ plainPieces fuel [] 0 after
    else plainPieces fuel (c :: List.replicate slashes '\\' ++ piece) 0 cs

def withoutTags (name : String) : String :=
  String.ofList ((plainPieces (name.length + 1) [] 0 name.toList).flatMap Text.withEmoji)

def nameLabel (name : String) : Label := (Label.of (withoutTags name) "").firstLine

end NqcBlocks.Viewer
