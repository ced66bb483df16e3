import NqcBlocks.Table
import NqcBlocks.Text.Lower
import NqcBlocks.Viewer.Styled.Token

/-!
# Styles

What the words of a tag ask for: a colour, a colour of the background after `on`, properties such as
bold, each of which `not` asks to be absent, and links. A closing tag closes a tag that asks for the
same, in whatever words: `styleName` is the same for both. Words that are no style are their own
name.
-/

namespace NqcBlocks.Viewer.Styled

def properties : List (String × List String) :=
  [("bold", ["bold", "b"]), ("dim", ["dim", "d"]), ("italic", ["italic", "i"]),
   ("underline", ["underline", "u"]), ("underline2", ["underline2", "uu"]),
   ("reverse", ["reverse", "r"]), ("strike", ["strike", "s"]), ("blink", ["blink"])]

def property? (word : String) : Option String :=
  (properties.find? fun p => p.2.contains word).map (·.1)

def colorNames : List String :=
  ["aliceblue", "antiquewhite", "aqua", "aquamarine", "azure", "beige", "bisque", "black",
   "blanchedalmond", "blue", "blueviolet", "brown", "burlywood", "cadetblue", "chartreuse",
   "chocolate", "coral", "cornflowerblue", "cornsilk", "crimson", "cyan", "darkblue", "darkcyan",
   "darkgoldenrod", "darkgray", "darkgreen", "darkgrey", "darkkhaki", "darkmagenta",
   "darkolivegreen", "darkorange", "darkorchid", "darkred", "darksalmon", "darkseagreen",
   "darkslateblue", "darkslategray", "darkslategrey", "darkturquoise", "darkviolet", "deeppink",
   "deepskyblue", "dimgray", "dimgrey", "dodgerblue", "firebrick", "floralwhite", "forestgreen",
   "fuchsia", "gainsboro", "ghostwhite", "gold", "goldenrod", "gray", "green", "greenyellow",
   "grey", "honeydew", "hotpink", "indianred", "indigo", "ivory", "khaki", "lavender",
   "lavenderblush", "lawngreen", "lemonchiffon", "lightblue", "lightcoral", "lightcyan",
   "lightgoldenrodyellow", "lightgray", "lightgreen", "lightgrey", "lightpink", "lightsalmon",
   "lightseagreen", "lightskyblue", "lightslategray", "lightslategrey", "lightsteelblue",
   "lightyellow", "lime", "limegreen", "linen", "magenta", "maroon", "mediumaquamarine",
   "mediumblue", "mediumorchid", "mediumpurple", "mediumseagreen", "mediumslateblue",
   "mediumspringgreen", "mediumturquoise", "mediumvioletred", "midnightblue", "mintcream",
   "mistyrose", "moccasin", "navajowhite", "navy", "oldlace", "olive", "olivedrab", "orange",
   "orangered", "orchid", "palegoldenrod", "palegreen", "paleturquoise", "palevioletred",
   "papayawhip", "peachpuff", "peru", "pink", "plum", "powderblue", "purple", "rebeccapurple",
   "red", "rosybrown", "royalblue", "saddlebrown", "salmon", "sandybrown", "seagreen", "seashell",
   "sienna", "silver", "skyblue", "slateblue", "slategray", "slategrey", "snow", "springgreen",
   "steelblue", "tan", "teal", "thistle", "tomato", "transparent", "turquoise", "violet", "wheat",
   "white", "whitesmoke", "yellow", "yellowgreen", "ansi_black", "ansi_red", "ansi_green",
   "ansi_yellow", "ansi_blue", "ansi_magenta", "ansi_cyan", "ansi_white", "ansi_bright_black",
   "ansi_bright_red", "ansi_bright_green", "ansi_bright_yellow", "ansi_bright_blue",
   "ansi_bright_magenta", "ansi_bright_cyan", "ansi_bright_white", "ansi_default", "auto"]

def colorName (name : String) : String :=
  if name == "aqua" then "cyan"
  else if name == "fuchsia" then "magenta"
  else name.replace "grey" "gray"

structure Style where
  color : Option String := none
  background : Option String := none
  properties : Table Bool := []
  link : Bool := false
  keys : List String := []
  onBackground : Bool := false
  negated : Bool := false

namespace Style

def withColor (s : Style) (color : String) : Style :=
  if s.onBackground then { s with background := some color } else { s with color := some color }

def withStrength (s : Style) (percent : String) : Style :=
  s.withColor (((if s.onBackground then s.background else s.color).getD "") ++ " " ++ percent)

def withWord? (s : Style) (word : String) : Option Style :=
  if word == "on" then some { s with onBackground := true }
  else if word == "not" then some { s with negated := true }
  else if word == "link" then some { s with link := true }
  else match property? word with
    | some p => some { s with properties := s.properties.insert p (!s.negated), negated := false }
    | none => if colorNames.contains word then some (s.withColor (colorName word)) else none

def name (s : Style) : String :=
  let words := s.color.toList ++ (s.background.map ("on " ++ ·)).toList
    ++ Styled.properties.filterMap (fun p => (s.properties.get? p.1).map fun asked =>
        if asked then p.1 else "not " ++ p.1)
    ++ (if s.link then ["link"] else []) ++ s.keys
  " ".intercalate words

end Style

def styleFrom : Style → Option Nat → List Token → Option Style
  | s, _, [] => some s
  | s, some depth, t :: rest => match t.kind with
    | .opening _ => styleFrom s (some (depth + 1)) rest
    | .closing _ => styleFrom s (some (depth - 1)) rest
    | .blank => styleFrom s (if depth = 0 then none else some depth) rest
    | _ => styleFrom s (some depth) rest
  | s, none, t :: rest =>
    let text := String.ofList t.chars
    match t.kind with
    | .blank => styleFrom s none rest
    | .color => styleFrom (s.withColor (Text.lower text)) none rest
    | .reference => styleFrom (s.withColor text) none rest
    | .percent => styleFrom (s.withStrength text) none rest
    | .key =>
      let s := if text == "link=" then { s with link := true } else { s with keys := s.keys ++ [text] }
      styleFrom s (some 0) rest
    | .word => match s.withWord? text with
      | none => none
      | some s => styleFrom s none rest
    | _ => none

def charsOf (tokens : List Token) : List Char := tokens.flatMap (·.chars)

def styleName (tag : List Token) : String :=
  match styleFrom {} none tag with
  | some s => s.name
  | none => Text.strip (String.ofList (charsOf tag))

end NqcBlocks.Viewer.Styled
