import NqcBlocks.Proofs.Nqc.Token

/-!
# Parsing

The trees of programs and a parser from texts to them, for the part of NQC that programs are written
in: tasks, declarations, assignments, calls, loops, branches, commands to tasks, and expressions with the
precedence of C, in which operators of one class are grouped to the left.
-/

namespace NqcBlocks.Nqc

/-! ## Trees -/

inductive ExprTree where
  | number (value : Nat)
  | truth (value : Bool)
  | name (text : String)
  | minus (operand : ExprTree)
  | not (operand : ExprTree)
  | binary (op : Operator) (left right : ExprTree)
  deriving DecidableEq, Repr, Inhabited

def ExprTree.ofInt (k : Int) : ExprTree :=
  if k < 0 then .minus (.number k.natAbs) else .number k.natAbs

inductive StmtTree where
  | declare (name : String)
  | call (function : String) (arguments : List ExprTree)
  | assign (name : String) (value : ExprTree)
  | expression (value : ExprTree)
  | start (task : String)
  | stop (task : String)
  | repeatLoop (count : ExprTree) (body : List StmtTree)
  | whileLoop (condition : ExprTree) (body : List StmtTree)
  | doWhile (body : List StmtTree) (condition : ExprTree)
  | branches (arms : List (ExprTree × List StmtTree)) (otherwise : Option (List StmtTree))
  deriving Repr, Inhabited

inductive ItemTree where
  | statement (tree : StmtTree)
  | task (name : String) (body : List StmtTree)
  deriving Repr, Inhabited

/-! ## Expressions -/

namespace Operator

def level : Operator → Nat
  | .or => 1
  | .and => 2
  | .equal | .notEqual => 3
  | .less | .lessEqual | .greater | .greaterEqual => 4
  | .add | .subtract => 5
  | .multiply | .divide => 6

def all : List Operator :=
  [.add, .subtract, .multiply, .divide, .equal, .notEqual, .less, .lessEqual, .greater,
    .greaterEqual, .and, .or]

def token (op : Operator) : Token := .sign op.symbol

def ofTokens? (ts : List Token) : Option Operator :=
  ts.head?.bind fun t => all.find? fun op => op.token == t

end Operator

def grammarWords : List String :=
  ["task", "int", "repeat", "while", "do", "if", "else", "start", "stop", "true", "false"]

def isIdentifier (w : String) : Bool := !grammarWords.contains w

def expect (t : Token) : List Token → Option (List Token)
  | [] => none
  | u :: ts => if u = t then some ts else none

mutual
def expression : Nat → Nat → List Token → Option (ExprTree × List Token)
  | 0, _, _ => none
  | fuel + 1, least, ts => do
    let (left, ts) ← operand fuel ts
    operations fuel least left ts
def operations : Nat → Nat → ExprTree → List Token → Option (ExprTree × List Token)
  | 0, _, _, _ => none
  | fuel + 1, least, left, ts =>
    match Operator.ofTokens? ts with
    | none => some (left, ts)
    | some op =>
      if least ≤ op.level then do
        let (right, ts) ← expression fuel (op.level + 1) ts.tail
        operations fuel least (.binary op left right) ts
      else some (left, ts)
def operand : Nat → List Token → Option (ExprTree × List Token)
  | 0, _ => none
  | _ + 1, [] => none
  | _ + 1, .number n :: ts => some (.number n, ts)
  | _ + 1, .word w :: ts =>
    if w = "true" then some (.truth true, ts)
    else if w = "false" then some (.truth false, ts)
    else if isIdentifier w then some (.name w, ts)
    else none
  | fuel + 1, .sign s :: ts =>
    if s = "-" then do
      let (e, ts) ← operand fuel ts
      some (.minus e, ts)
    else if s = "!" then do
      let (e, ts) ← operand fuel ts
      some (.not e, ts)
    else if s = "(" then do
      let (e, ts) ← expression fuel 0 ts
      let ts ← expect (.sign ")") ts
      some (e, ts)
    else none
end

def parenthesized (fuel : Nat) (ts : List Token) : Option (ExprTree × List Token) := do
  let ts ← expect (.sign "(") ts
  let (e, ts) ← expression fuel 0 ts
  let ts ← expect (.sign ")") ts
  some (e, ts)

def arguments : Nat → List Token → Option (List ExprTree × List Token)
  | 0, _ => none
  | fuel + 1, ts => do
    let (e, ts) ← expression fuel 0 ts
    if ts.head? = some (.sign ",") then
      let (es, ts) ← arguments fuel ts.tail
      some (e :: es, ts)
    else
      let ts ← expect (.sign ")") ts
      some ([e], ts)

/-! ## Statements -/

def nameAndEnd : List Token → Option (String × List Token)
  | .word w :: ts =>
    if isIdentifier w then do
      let ts ← expect (.sign ";") ts
      some (w, ts)
    else none
  | _ => none

def simpleStatement (fuel : Nat) (ts : List Token) : Option (StmtTree × List Token) :=
  match ts with
  | .word w :: .sign s :: rest =>
    if s = "(" then do
      let (es, ts) ← arguments fuel rest
      let ts ← expect (.sign ";") ts
      some (.call w es, ts)
    else if s = "=" then do
      let (e, ts) ← expression fuel 0 rest
      let ts ← expect (.sign ";") ts
      if isIdentifier w then some (.assign w e, ts) else none
    else expressionStatement
  | _ => expressionStatement
where
  expressionStatement : Option (StmtTree × List Token) := do
    let (e, ts) ← expression fuel 0 ts
    let ts ← expect (.sign ";") ts
    some (.expression e, ts)

mutual
def statement : Nat → List Token → Option (StmtTree × List Token)
  | 0, _ => none
  | fuel + 1, .word w :: ts =>
    if w = "int" then (nameAndEnd ts).map fun (name, ts) => (.declare name, ts)
    else if w = "start" then (nameAndEnd ts).map fun (name, ts) => (.start name, ts)
    else if w = "stop" then (nameAndEnd ts).map fun (name, ts) => (.stop name, ts)
    else if w = "repeat" then do
      let (count, ts) ← parenthesized fuel ts
      let (body, ts) ← block fuel ts
      some (.repeatLoop count body, ts)
    else if w = "while" then do
      let (condition, ts) ← parenthesized fuel ts
      let (body, ts) ← block fuel ts
      some (.whileLoop condition body, ts)
    else if w = "do" then do
      let (body, ts) ← block fuel ts
      let ts ← expect (.word "while") ts
      let (condition, ts) ← parenthesized fuel ts
      let ts ← expect (.sign ";") ts
      some (.doWhile body condition, ts)
    else if w = "if" then do
      let ((arms, otherwise), ts) ← conditional fuel ts
      some (.branches arms otherwise, ts)
    else simpleStatement fuel (.word w :: ts)
  | fuel + 1, ts => simpleStatement fuel ts
def conditional : Nat → List Token →
    Option ((List (ExprTree × List StmtTree) × Option (List StmtTree)) × List Token)
  | 0, _ => none
  | fuel + 1, ts => do
    let (condition, ts) ← parenthesized fuel ts
    let (body, ts) ← block fuel ts
    if ts.head? = some (.word "else") then
      if ts.tail.head? = some (.word "if") then
        let ((arms, otherwise), ts) ← conditional fuel ts.tail.tail
        some (((condition, body) :: arms, otherwise), ts)
      else
        let (otherwise, ts) ← block fuel ts.tail
        some (([(condition, body)], some otherwise), ts)
    else some (([(condition, body)], none), ts)
def block : Nat → List Token → Option (List StmtTree × List Token)
  | 0, _ => none
  | fuel + 1, ts => do
    let ts ← expect (.sign "\x7b") ts
    let (body, ts) ← statements fuel ts
    let ts ← expect (.sign "\x7d") ts
    some (body, ts)
def statements : Nat → List Token → Option (List StmtTree × List Token)
  | 0, _ => none
  | fuel + 1, ts =>
    if ts.head? = none ∨ ts.head? = some (.sign "\x7d") then some ([], ts)
    else do
      let (first, ts) ← statement fuel ts
      let (rest, ts) ← statements fuel ts
      some (first :: rest, ts)
end

/-! ## Programs -/

def taskTitle : List Token → Option (String × List Token)
  | .word w :: ts =>
    if isIdentifier w then do
      let ts ← expect (.sign "(") ts
      let ts ← expect (.sign ")") ts
      some (w, ts)
    else none
  | _ => none

def items : Nat → List Token → Option (List ItemTree)
  | 0, _ => none
  | _ + 1, [] => some []
  | fuel + 1, t :: ts =>
    if t = .word "task" then do
      let (name, ts) ← taskTitle ts
      let (body, ts) ← block fuel ts
      let rest ← items fuel ts
      some (.task name body :: rest)
    else do
      let (first, ts) ← statement fuel (t :: ts)
      let rest ← items fuel ts
      some (.statement first :: rest)

def parse (s : String) : Option (List ItemTree) := items (2 * (tokens s).length + 2) (tokens s)

end NqcBlocks.Nqc
