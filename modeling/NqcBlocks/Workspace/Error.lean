import NqcBlocks.Graph.Error

/-!
# Workspaces that cannot be loaded

The reasons for which a document is no workspace. Most are about the program it describes and have a
wording; the last group is about parts of the document that are of the wrong type altogether, and
those are told apart by what was asked of them.
-/

namespace NqcBlocks

inductive Misuse where
  | members
  | lookup
  | magnitude
  deriving DecidableEq, Repr

inductive LoadError where
  | notAnObject
  | noBlockList
  | missingType (entry : Json)
  | unknownType (type id : Json)
  | badCount (id value : Json)
  | badNumber (id : Json) (numeral : String)
  | refused (id type : Json) (cause : GraphError)
  | noInput (id type : Json) (input : String)
  | badConnection (connection : Json)
  | misuse (what : Misuse)
  deriving Repr

def LoadError.message? : LoadError → Option String
  | .notAnObject => some "Workspace must be a JSON object."
  | .noBlockList => some "\"blocks\" must hold a list of top-level blocks."
  | .missingType entry => some ("Block entry without a type: " ++ entry.shown)
  | .unknownType type id =>
    some ("Unknown block type \"" ++ type.plain ++ "\" (id " ++ id.plain ++ ").")
  | .badCount id value =>
    some ("Block " ++ id.plain ++ ": elseIfCount must be a whole number; got " ++ value.shown
      ++ ".")
  | .badNumber id numeral =>
    some ("Block " ++ id.plain ++ ": \"" ++ numeral ++ "\" is not a number.")
  | .refused id type cause =>
    some ("Block " ++ id.plain ++ " (" ++ type.plain ++ "): " ++ cause.message)
  | .noInput id type input =>
    some ("Block " ++ id.plain ++ " (" ++ type.plain ++ ") has no input \"" ++ input ++ "\".")
  | .badConnection connection => some ("Malformed connection: " ++ connection.shown)
  | .misuse _ => none

end NqcBlocks
