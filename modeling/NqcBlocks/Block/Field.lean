import NqcBlocks.Block.Spec

/-!
# Field values

Which values a field takes. A dropdown takes one of its choices, a number field a number within its
bounds, an identifier field a name (blanks around it are dropped) and a text field any text.
-/

namespace NqcBlocks

inductive FieldError where
  | notAnOption (options : List String) (value : Json)
  | notANumber (value : Json)
  | belowMinimum (bound : Number)
  | aboveMaximum (bound : Number)
  | notText (value : Json)
  | notAName (value : String)
  deriving Repr

def FieldError.message (kind : BlockKind) (field : String) : FieldError → String
  | .notAnOption options value =>
    subject ++ " must be one of " ++ ", ".intercalate options ++ "; got " ++ value.shown ++ "."
  | .notANumber value => subject ++ " must be a number; got " ++ value.shown ++ "."
  | .belowMinimum bound => subject ++ " must be at least " ++ bound.text ++ "."
  | .aboveMaximum bound => subject ++ " must be at most " ++ bound.text ++ "."
  | .notText value => subject ++ " must be text; got " ++ value.shown ++ "."
  | .notAName value =>
    "\"" ++ value ++ "\" is not a valid name for field \"" ++ field ++ "\" of \"" ++ kind.tag
      ++ "\"."
where
  subject : String := "Field \"" ++ field ++ "\" of \"" ++ kind.tag ++ "\""

def isNameStart (c : Char) : Bool :=
  ('a' ≤ c && c ≤ 'z') || ('A' ≤ c && c ≤ 'Z') || c == '_'

def isNameChar (c : Char) : Bool := isNameStart c || ('0' ≤ c && c ≤ '9')

def isName (s : String) : Bool :=
  match s.toList with
  | [] => false
  | c :: rest => isNameStart c && rest.all isNameChar

def FieldSpec.checked (f : FieldSpec) (value : Json) : Except FieldError Json :=
  match f.kind with
  | .dropdown => match value with
    | .text s => if f.options.contains s then .ok value else .error (.notAnOption f.options value)
    | _ => .error (.notAnOption f.options value)
  | .number => match value with
    | .number n =>
      match f.minimum.filter n.lt with
      | some bound => .error (.belowMinimum bound)
      | none => match f.maximum.filter (·.lt n) with
        | some bound => .error (.aboveMaximum bound)
        | none => .ok value
    | _ => .error (.notANumber value)
  | .identifier => match value with
    | .text s =>
      let s := Text.strip s
      if (s.isEmpty && f.allowEmpty) || isName s then .ok (.text s) else .error (.notAName s)
    | _ => .error (.notText value)
  | .text => match value with
    | .text _ => .ok value
    | _ => .error (.notText value)

end NqcBlocks
