/-!
# Lines of a text

A text is cut into lines after each line break. A line keeps its break, so that the lines put
together again give the text. Breaks are the line feed, the carriage return (which a line feed
directly after it belongs to), the vertical tab, the form feed, the separators `U+001C` to
`U+001E`, the next-line character `U+0085`, and `U+2028` and `U+2029`.
-/

namespace NqcBlocks.Text

def isLineBreak (c : Char) : Bool :=
  let n := c.toNat
  (10 ≤ n && n ≤ 13) || (28 ≤ n && n ≤ 30) || n == 0x85 || n == 0x2028 || n == 0x2029

def pushFront (c : Char) : List (List Char) → List (List Char)
  | [] => [[c]]
  | line :: rest => (c :: line) :: rest

def splitLines : List Char → List (List Char)
  | [] => []
  | '\r' :: '\n' :: rest => ['\r', '\n'] :: splitLines rest
  | c :: rest => if isLineBreak c then [c] :: splitLines rest else pushFront c (splitLines rest)

def withoutBreak (line : List Char) : List Char :=
  dropBreak line.reverse |>.reverse
where
  dropBreak : List Char → List Char
    | '\n' :: '\r' :: rest => rest
    | c :: rest => if isLineBreak c then rest else c :: rest
    | [] => []

def linesOf (s : String) : List String :=
  (splitLines s.toList).map fun line => String.ofList (withoutBreak line)

def prefixLines (s margin : String) : String :=
  String.ofList ((splitLines s.toList).flatMap fun line => margin.toList ++ line)

def splitAt (sep : Char) : List Char → List (List Char)
  | [] => [[]]
  | c :: rest => if c == sep then [] :: splitAt sep rest else pushFront c (splitAt sep rest)

def splitOnChar (s : String) (sep : Char) : List String :=
  (splitAt sep s.toList).map String.ofList

def newlines : List Char → List Char
  | [] => []
  | '\r' :: '\n' :: rest => '\n' :: newlines rest
  | c :: rest => (if c == '\r' then '\n' else c) :: newlines rest

def joinNewlines (s : String) : String :=
  String.ofList (newlines s.toList)

end NqcBlocks.Text
