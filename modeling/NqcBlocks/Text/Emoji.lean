import NqcBlocks.Text.Blank
import NqcBlocks.Text.Digit
import NqcBlocks.Text.EmojiTable
import NqcBlocks.Text.Lines
import NqcBlocks.Text.Lower

/-!
# Emoji by name

A text may ask for an emoji by its short name between colons, in letters of either case. The name may
end in `-text` or `-emoji`, which asks for the emoji as a sign or as a picture. A name that is not
known stays as it is, with both of its colons.
-/

namespace NqcBlocks.Text

def hexValue (s : String) : Nat :=
  s.toList.foldl (fun n c => 16 * n + (hexDigit? c).getD 0) 0

def emojiOfCode (code : String) : List Char :=
  match code.toList with
  | '@' :: country => country.map fun c => Char.ofNat (0x1F1A5 + c.toNat)
  | _ => [Char.ofNat 0x200D].intercalate <| (splitOnChar code '+').map fun part =>
    (splitOnChar part '-').map fun digits => Char.ofNat (hexValue digits)

def skinTones : List (String × Char) :=
  [("_light_skin_tone", Char.ofNat 0x1F3FB), ("_medium-light_skin_tone", Char.ofNat 0x1F3FC),
   ("_medium_skin_tone", Char.ofNat 0x1F3FD), ("_medium-dark_skin_tone", Char.ofNat 0x1F3FE),
   ("_dark_skin_tone", Char.ofNat 0x1F3FF)]

def inTone (tone : Char) : List Char → List Char
  | [] => []
  | c :: rest => c :: tone :: if rest.head? == some (Char.ofNat 0xFE0F) then rest.tail else rest

def emojiForms (emoji : List Char) (key : String) : List (String × List Char) :=
  match splitOnChar key '~' with
  | [name, ""] => (name, emoji) :: skinTones.map fun tone => (name ++ tone.1, inTone tone.2 emoji)
  | _ => [(key, emoji)]

def rowForms (row : String) : List (String × List Char) :=
  match splitOnChar row ' ' with
  | [] => []
  | first :: entries => entries.zipIdx.flatMap fun (entry, i) =>
    (splitOnChar entry '=').flatMap (emojiForms [Char.ofNat (hexValue first + i)])

/-- An entry for one of both, with `P` for the person and `S` for the sign. -/
def inGender (word person sign entry : String) : String :=
  String.ofList <| entry.toList.flatMap fun
    | '%' => word.toList
    | 'P' => person.toList
    | 'S' => sign.toList
    | c => [c]

def genderedEntries (entry : String) : List String :=
  if entry.toList.contains '%' then
    [inGender "man" "1F468" "2642-FE0F" entry, inGender "woman" "1F469" "2640-FE0F" entry]
  else [entry]

def sequenceForms (entry : String) : List (String × List Char) :=
  let parts := splitOnChar entry '='
  let code := parts.getLastD ""
  let emoji := emojiOfCode code
  parts.dropLast.flatMap fun key =>
    if code.startsWith "@" then [(key, emoji), ("flag_for_" ++ key, emoji)] else emojiForms emoji key

def emojiEntries : List String :=
  (splitOnChar emojiSequences '\n').flatMap fun line => (splitOnChar line ' ').flatMap genderedEntries

def emoji? (name : String) : Option (List Char) :=
  ((splitOnChar emojiRows '\n').findSome? fun row => (rowForms row).lookup name)
    <|> emojiEntries.findSome? fun entry => (sequenceForms entry).lookup name

def emojiVariants : List (List Char × Char) :=
  [("-emoji".toList, Char.ofNat 0xFE0F), ("-text".toList, Char.ofNat 0xFE0E)]

def splitVariant (name : List Char) : List Char × List Char :=
  match emojiVariants.find? fun v => v.1.isSuffixOf name with
  | none => (name, [])
  | some (ending, sign) => (name.take (name.length - ending.length), [sign])

def shownEmoji (name : List Char) : List Char :=
  let (plain, sign) := splitVariant name
  match emoji? (lower (String.ofList plain)) with
  | none => ':' :: name ++ [':']
  | some emoji => emoji ++ sign

def emojiName? (cs : List Char) : Option (List Char × List Char) :=
  let inName := fun c => c != ':' && !isBlank c
  match cs.dropWhile inName with
  | ':' :: after => some (cs.takeWhile inName, after)
  | _ => none

def replaceEmoji : Nat → List Char → List Char
  | 0, cs => cs
  | _ + 1, [] => []
  | fuel + 1, c :: rest =>
    match if c == ':' then emojiName? rest else none with
    | none => c :: replaceEmoji fuel rest
    | some (name, after) => shownEmoji name ++ replaceEmoji fuel after

def withEmoji (cs : List Char) : List Char := replaceEmoji cs.length cs

end NqcBlocks.Text
