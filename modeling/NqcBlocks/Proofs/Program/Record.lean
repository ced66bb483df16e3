import NqcBlocks.Program.Generate

/-!
# The course of a program

Generating a program with a record of each section: the scope when the section's header has been
written, the scope when the section is about to be closed, and the statements written in between.
Apart from the record nothing is different (`emitProgram_eq`), so that what is proved of the records is
a fact about the program.
-/

namespace NqcBlocks

open Nqc Gen

/-- **What is recorded of a section.** -/
structure SectionRecord where
  part : Section
  opened : Option Scope
  closed : Option Scope
  code : List Stmt

namespace Generation

/-! ## Recording -/

def recordBlock (catalog : Catalog) (margin : String) (t : BlockTree) : Gen (List Stmt) := do
  let statements ← t.code catalog
  let code := Nqc.stmtsText (← get).options.indent statements
  let tag := t.node.kind.tag
  if t.node.enabled then
    Gen.emit
      { node := t.node.handle, message := "Generating code for " ++ tag ++ " block."
        newCode := someText (Text.prefixLines code margin) }
  else
    Gen.emit { node := t.node.handle, message := "Skipping disabled " ++ tag ++ " block." }
  for n in ← Gen.takeNotes do
    Gen.emit (.warn n.node n.text)
  pure statements

def recordBlocks (catalog : Catalog) (margin : String) : List BlockTree → Gen (List Stmt)
  | [] => pure []
  | t :: rest => do
    let first ← recordBlock catalog margin t
    pure (first ++ (← recordBlocks catalog margin rest))

def recordTask (g : Graph) (part : Section) (t : TaskHead) : Gen SectionRecord := do
  emitTaskHeader g t
  let opened := (← get).scope
  let code ← recordBlocks g.catalog (← get).options.indent (chainsOf g t.heads).flatten
  let closed := (← get).scope
  emitTaskEnd t
  pure { part, opened, closed, code }

def recordSection (g : Graph) : Section → Gen (List SectionRecord)
  | .preamble text => do
    emitPreamble text
    pure []
  | .global loose => do
    emitGlobalHeader g loose
    let opened := (← get).scope
    let code ← recordBlocks g.catalog "" (chainsOf g loose).flatten
    let closed := (← get).scope
    Gen.closeScope
    pure [{ part := .global loose, opened, closed, code }]
  | .task root => do
    let head ← taskHead g root
    pure [← recordTask g (.task root) head]
  | .main loose => do pure [← recordTask g (.main loose) (looseHead loose)]

def recordSections (g : Graph) : List Section → Gen (List SectionRecord)
  | [] => pure []
  | [s] => recordSection g s
  | s :: rest => do
    let first ← recordSection g s
    emitSeparator
    pure (first ++ (← recordSections g rest))

def recordPlanned (g : Graph) : Gen (Plan × List SectionRecord) := do
  let p ← Plan.ofGraph g
  Gen.emit (startReport p)
  for (h, reason) in p.skipped do
    Gen.emit (.warn h reason)
  let records ← recordSections g (sections (← get).options p)
  Gen.emit endReport
  pure (p, records)

def recordProgram (g : Graph) : Gen (Plan × List SectionRecord) := do
  Gen.begin g
  recordPlanned g

/-! ## Recording changes nothing -/

theorem get_bind_const {α : Type} (x : Gen α) : (get >>= fun _ => x) = x :=
  funext fun _ => rfl

theorem emitBlock_eq (catalog : Catalog) (margin : String) (t : BlockTree) :
    emitBlock catalog margin t = (fun _ => ()) <$> recordBlock catalog margin t := by
  unfold emitBlock recordBlock
  cases t.node.enabled <;> simp

theorem emitChains_eq (catalog : Catalog) (margin : String) (chains : List (List BlockTree)) :
    emitChains catalog margin chains = (fun _ => ()) <$> recordBlocks catalog margin chains.flatten := by
  unfold emitChains
  generalize chains.flatten = ts
  induction ts with
  | nil => rfl
  | cons t ts ih =>
    show emitBlock catalog margin t >>= (fun _ => ts.forM (emitBlock catalog margin)) = _
    simp [recordBlocks, emitBlock_eq, ih]

theorem emitTask_eq (g : Graph) (part : Section) (t : TaskHead) :
    emitTask g t = (fun _ => ()) <$> recordTask g part t := by
  unfold emitTask recordTask
  simp [emitChains_eq, get_bind_const]

theorem emitSection_eq (g : Graph) (s : Section) : emitSection g s = (fun _ => ()) <$> recordSection g s := by
  cases s with
  | preamble text => simp [emitSection, recordSection]
  | global loose => simp [emitSection, recordSection, emitChains_eq, get_bind_const]
  | task root => simp [emitSection, recordSection, emitTask_eq g (.task root)]
  | main loose => simp [emitSection, recordSection, emitTask_eq g (.main loose)]

theorem emitSections_eq (g : Graph) : ∀ ss : List Section, emitSections g ss = (fun _ => ()) <$> recordSections g ss
  | [] => rfl
  | [s] => emitSection_eq g s
  | s :: s' :: rest => by
    show emitSection g s >>= (fun _ => emitSeparator >>= fun _ => emitSections g (s' :: rest)) = (fun _ => ()) <$> (do
        let first ← recordSection g s
        emitSeparator
        pure (first ++ (← recordSections g (s' :: rest))))
    simp [emitSections_eq g (s' :: rest), emitSection_eq]

theorem emitProgram_eq (g : Graph) : emitProgram g = (fun _ => ()) <$> recordProgram g := by
  unfold emitProgram recordProgram recordPlanned
  simp [emitSections_eq]

end Generation

end NqcBlocks
