import NqcBlocks.Program.Compose
import NqcBlocks.Program.Plan

/-!
# Generating a program

A program is the preamble, a global section when there are loose blocks beside a main task, one
section for each task, and a main task made of the loose blocks when there is none. Sections are
separated by an empty line. Each section opens a scope, collects its variables, writes its header with
the declarations, and then its blocks one by one.
-/

namespace NqcBlocks

inductive Section where
  | preamble (text : String)
  | global (loose : List Handle)
  | task (root : Handle)
  | main (loose : List Handle)
  deriving DecidableEq, Repr

namespace Generation

/-! ## Pieces of a section -/

def endLine (s : String) : String :=
  if s.toList.getLast? == some '\n' then s else s ++ "\n"

def emitPreamble (text : String) : Gen Unit :=
  Gen.emit { message := "Writing preamble.", newCode := endLine text }

def emitSeparator : Gen Unit :=
  Gen.emit { message := "Separating sections.", newCode := "\n" }

def chainsOf (g : Graph) (heads : List Handle) : List (List BlockTree) := heads.map g.headTrees

def emitGlobalHeader (g : Graph) (loose : List Handle) : Gen Unit := do
  Gen.openScope .global
  prescan g.catalog (chainsOf g loose)
  let declarations ← Gen.declarations .global ""
  Gen.emit { message := "Generating global section.", newCode := someText declarations }

structure TaskHead where
  name : String
  key : ScopeKey
  root : Option Handle
  heads : List Handle
  deriving DecidableEq, Repr

def taskHead (g : Graph) (root : Handle) : Gen TaskHead := do
  let n := (g.lastState? root).getD { handle := root, kind := .mainTask }
  let (name, key) ← match n.kind with
    | .mainTask => pure (entryName, ScopeKey.main)
    | _ => match n.fields.get? "NAME" with
      | none => throw (.defect (.missingField root "NAME"))
      | some value => do
        let name ← Gen.resolveValue .task value
        pure (name.plain, ScopeKey.task (if name.isEmpty then "" else name.plain))
  let body ← Gen.ofGraph (g.statementTarget root "STATEMENTS")
  pure { name, key, root := some root, heads := (body.map (·.handle)).toList }

def looseHead (loose : List Handle) : TaskHead :=
  { name := entryName, key := .main, root := none, heads := loose }

def emitTaskHeader (g : Graph) (t : TaskHead) : Gen Unit := do
  Gen.openScope t.key
  prescan g.catalog (chainsOf g t.heads)
  let comment ← match t.root.bind g.lastState? with
    | none => pure ""
    | some n => n.commentLines
  let declarations ← Gen.declarations t.key (← get).options.indent
  Gen.emit
    { node := t.root
      message := if t.root.isSome then "Generating task " ++ t.name ++ "."
        else "No main task found: generating task main from loose blocks."
      newCode := comment ++ "task " ++ t.name ++ "()\n\x7b\n" ++ declarations }

def emitTaskEnd (t : TaskHead) : Gen Unit := do
  Gen.closeScope
  Gen.emit
    { node := t.root, message := "Closing task " ++ t.name ++ ".", newCode := "\x7d\n" }

def emitBlock (catalog : Catalog) (margin : String) (t : BlockTree) : Gen Unit := do
  let statements ← t.code catalog
  let code := Nqc.stmtsText (← get).options.indent statements
  let tag := t.node.kind.tag
  if t.node.enabled then
    Gen.emit
      { node := t.node.handle, message := "Generating code for " ++ tag ++ " block."
        newCode := someText (Text.prefixLines code margin) }
  else
    Gen.emit { node := t.node.handle, message := "Skipping disabled " ++ tag ++ " block." }
  for n in ← Gen.takeNotes do
    Gen.emit (.warn n.node n.text)

def emitChains (catalog : Catalog) (margin : String) (chains : List (List BlockTree)) : Gen Unit :=
  chains.flatten.forM (emitBlock catalog margin)

def emitTask (g : Graph) (t : TaskHead) : Gen Unit := do
  emitTaskHeader g t
  emitChains g.catalog (← get).options.indent (chainsOf g t.heads)
  emitTaskEnd t

/-! ## The program -/

def emitSection (g : Graph) : Section → Gen Unit
  | .preamble text => emitPreamble text
  | .global loose => do
    emitGlobalHeader g loose
    emitChains g.catalog "" (chainsOf g loose)
    Gen.closeScope
  | .task root => do emitTask g (← taskHead g root)
  | .main loose => emitTask g (looseHead loose)

def sections (options : Options) (p : Plan) : List Section :=
  (if options.preamble.isEmpty then [] else [.preamble options.preamble])
    ++ (if p.loose.isEmpty || !p.hasMain then [] else [.global p.loose])
    ++ p.tasks.map .task
    ++ (if p.hasMain then [] else [.main p.loose])

def startReport (p : Plan) : CodeReport :=
  { message := "Starting code generation: " ++ Number.natText p.tasks.length ++ " task(s), "
      ++ Number.natText p.loose.length ++ " loose block(s)." }

def endReport : CodeReport := { message := "Code generation complete." }

def emitSections (g : Graph) : List Section → Gen Unit
  | [] => pure ()
  | [s] => emitSection g s
  | s :: rest => do
    emitSection g s
    emitSeparator
    emitSections g rest

def emitProgram (g : Graph) : Gen Unit := do
  Gen.begin g
  let p ← Plan.ofGraph g
  Gen.emit (startReport p)
  for (h, reason) in p.skipped do
    Gen.emit (.warn h reason)
  emitSections g (sections (← get).options p)
  Gen.emit endReport

def run (g : Graph) (options : Options := {}) : List CodeReport × Option GenError :=
  match (emitProgram g).run.run (.start options) with
  | (.ok (), c) => (c.reports, none)
  | (.error e, c) => (c.reports, some e)

def code (g : Graph) (options : Options := {}) : Except GenError String :=
  match run g options with
  | (reports, none) => .ok (CodeReport.code reports)
  | (_, some e) => .error e

end Generation

end NqcBlocks
