import NqcBlocks.Proofs.Nqc.Grammar

/-!
# Reading formulas by precedence

Formulas as they are written, parentheses included, and how a text is read as one when the operators bind
by their classes (`Operator.order`): `!` tightest, then the classes in their order, the operators of one
class from the left. Unlike in the grammar of programs, all comparisons are in one class, and a number with
its sign is one symbol.
-/

namespace NqcBlocks.Nqc

open List String

/-! ## Formulas and their symbols -/

inductive Formula where
  | leaf (text : String)
  | not (operand : Formula)
  | binary (op : Operator) (left right : Formula)
  | paren (inner : Formula)
  deriving DecidableEq, Repr, Inhabited

inductive Symbol where
  | leaf (text : String)
  | bang
  | operator (op : Operator)
  | opening
  | closing
  deriving DecidableEq, Repr

variable {f : Formula} {k : Nat} {ss : List Symbol} {cs : List Char} {op : Operator}

theorem Operator.three_le_rank (op : Operator) : 3 ≤ op.order.rank := by cases op <;> decide

theorem Operator.rank_le_none (op : Operator) : op.order.rank ≤ Order.none.rank := by
  cases op <;> decide

namespace Formula

def bare : Formula → Formula
  | .leaf w => .leaf w
  | .not f => .not f.bare
  | .binary op l r => .binary op l.bare r.bare
  | .paren f => f.bare

def symbols : Formula → List Symbol
  | .leaf w => [.leaf w]
  | .not f => .bang :: f.symbols
  | .binary op l r => l.symbols ++ .operator op :: r.symbols
  | .paren f => .opening :: (f.symbols ++ [.closing])

def level : Formula → Nat
  | .leaf _ | .paren _ => Order.atomic.rank
  | .not _ => Order.unaryPrefix.rank
  | .binary op _ _ => op.order.rank

/-- **A formula is canonical** if its operators bind as it says: a left operand may be of the operator's
own class, a right one has to bind tighter. -/
def Canonical : Formula → Prop
  | .leaf _ => True
  | .not f => f.Canonical ∧ f.level ≤ Order.unaryPrefix.rank
  | .binary op l r =>
    l.Canonical ∧ r.Canonical ∧ l.level ≤ op.order.rank ∧ r.level < op.order.rank
  | .paren f => f.Canonical

/-! ## Parentheses -/

def operators : Formula → Nat
  | .leaf _ => 0
  | .not f => f.operators
  | .binary _ l r => l.operators + r.operators + 1
  | .paren f => f.operators

theorem operators_bare (f : Formula) : f.bare.operators = f.operators := by
  induction f with
  | leaf w => rfl
  | not f ih => exact ih
  | binary op l r ihl ihr => rw [bare, operators, operators, ihl, ihr]
  | paren f ih => exact ih

def isOperator : Symbol → Bool
  | .operator _ => true
  | _ => false

theorem countP_symbols (f : Formula) : f.symbols.countP isOperator = f.operators := by
  induction f with
  | leaf w => rfl
  | not f ih => simpa [symbols, operators, isOperator] using ih
  | binary op l r ihl ihr =>
    rw [symbols, countP_append, countP_cons_of_pos rfl, ihl, ihr, operators, Nat.add_assoc]
  | paren f ih => simpa [symbols, operators, isOperator] using ih

/-- How many operators stand outside all parentheses, if so many of these are open. -/
def outer : Nat → List Symbol → Nat
  | _, [] => 0
  | depth, .opening :: ss => outer (depth + 1) ss
  | depth, .closing :: ss => outer (depth - 1) ss
  | 0, .operator _ :: ss => outer 0 ss + 1
  | depth, _ :: ss => outer depth ss

theorem outer_succ (f : Formula) (depth : Nat) (ss : List Symbol) :
    outer (depth + 1) (f.symbols ++ ss) = outer (depth + 1) ss := by
  induction f generalizing depth ss with
  | leaf w => rfl
  | not f ih => exact ih depth ss
  | binary op l r ihl ihr => simp [symbols, outer, ihl, ihr]
  | paren f ih => simp [symbols, outer, ih]

theorem outer_le (f : Formula) (ss : List Symbol) : outer 0 ss ≤ outer 0 (f.symbols ++ ss) := by
  induction f generalizing ss with
  | leaf w => exact Nat.le_refl _
  | not f ih => exact ih ss
  | binary op l r ihl ihr =>
    have hl := ihl (.operator op :: (r.symbols ++ ss))
    rw [symbols, List.append_assoc, cons_append]
    exact ((ihr ss).trans (Nat.le_succ _)).trans hl
  | paren f ih => simp [symbols, outer, outer_succ]

theorem symbols_paren_ne_binary (f l r : Formula) (op : Operator) : (paren f).symbols ≠ (binary op l r).symbols := by
  intro h
  have hnone : outer 0 (paren f).symbols = 0 := by simp [symbols, outer, outer_succ]
  have hsome := outer_le l (.operator op :: r.symbols)
  rw [h] at hnone
  exact absurd (hsome.trans_eq hnone) (Nat.not_succ_le_zero _)

theorem append_operator_inj {op' : Operator} {xs ys zs ws : List Symbol}
    (hcount : xs.countP isOperator = ys.countP isOperator)
    (h : xs ++ .operator op :: zs = ys ++ .operator op' :: ws) : xs = ys ∧ zs = ws := by
  -- what one of the two has more starts with the operator of the other one
  have hnil : ∀ {op op' : Operator} {xs more zs ws : List Symbol},
      (xs ++ more).countP isOperator = xs.countP isOperator →
      Symbol.operator op :: zs = more ++ .operator op' :: ws → more = [] ∧ zs = ws := by
    intro op op' xs more zs ws hcount h
    rcases List.cons_eq_append_iff.mp h with ⟨rfl, hcons⟩ | ⟨more', rfl, -⟩
    · exact ⟨rfl, (List.cons.inj hcons).2.symm⟩
    · rw [countP_append, countP_cons_of_pos rfl] at hcount
      omega
  rcases append_eq_append_iff.mp h with ⟨more, rfl, hmore⟩ | ⟨more, rfl, hmore⟩
  · obtain ⟨rfl, rfl⟩ := hnil hcount.symm hmore
    exact ⟨(append_nil xs).symm, rfl⟩
  · obtain ⟨rfl, rfl⟩ := hnil hcount hmore
    exact ⟨append_nil ys, rfl⟩

theorem eq_of_symbols {f' : Formula} (hbare : f.bare = f'.bare) (h : f.symbols = f'.symbols) : f = f' := by
  induction f generalizing f' with
  | leaf w =>
    cases f' with
    | leaf w' => simpa [bare] using hbare
    | paren f' => simp [symbols] at h
    | _ => simp [bare] at hbare
  | not f ih =>
    cases f' with
    | not f' =>
      simp only [bare, not.injEq] at hbare
      rw [ih hbare (List.cons.inj h).2]
    | paren f' => simp [symbols] at h
    | _ => simp [bare] at hbare
  | binary op l r ihl ihr =>
    cases f' with
    | binary op' l' r' =>
      simp only [bare, binary.injEq] at hbare
      obtain ⟨rfl, hl, hr⟩ := hbare
      have hcount : l.symbols.countP isOperator = l'.symbols.countP isOperator := by
        rw [countP_symbols, countP_symbols, ← operators_bare l, hl, operators_bare]
      obtain ⟨hl', hr'⟩ := append_operator_inj hcount h
      rw [ihl hl hl', ihr hr hr']
    | paren f' => exact absurd h.symm (symbols_paren_ne_binary f' l r op)
    | _ => simp [bare] at hbare
  | paren f ih =>
    cases f' with
    | paren f' =>
      have hbare' : f.bare = f'.bare := hbare
      rw [ih hbare' (append_cancel_right (List.cons.inj h).2)]
    | binary op l r => exact absurd h (symbols_paren_ne_binary f l r op)
    | _ => simp [symbols] at h

/-! ## Parsing -/

inductive Pending where
  | bang
  | left (operand : Formula) (op : Operator)
  | opening

variable {stack : List Pending}

def close (limit : Nat) : List Pending → Formula → List Pending × Formula
  | .bang :: stack, f => close limit stack (.not f)
  | .left l op :: stack, f =>
    if op.order.rank ≤ limit then close limit stack (.binary op l f) else (.left l op :: stack, f)
  | stack, f => (stack, f)

mutual
def parseOperand : List Pending → List Symbol → Option Formula
  | stack, .leaf w :: ss => parseOperator stack (.leaf w) ss
  | stack, .bang :: ss => parseOperand (.bang :: stack) ss
  | stack, .opening :: ss => parseOperand (.opening :: stack) ss
  | _, _ => none
def parseOperator : List Pending → Formula → List Symbol → Option Formula
  | stack, f, .operator op :: ss =>
    parseOperand (.left (close op.order.rank stack f).2 op :: (close op.order.rank stack f).1) ss
  | stack, f, .closing :: ss =>
    match close Order.none.rank stack f with
    | (.opening :: stack, f) => parseOperator stack (.paren f) ss
    | _ => none
  | stack, f, [] =>
    match close Order.none.rank stack f with
    | ([], f) => some f
    | _ => none
  | _, _, _ => none
end

def parse (ss : List Symbol) : Option Formula := parseOperand [] ss

def Ready (level : Nat) : List Pending → Prop
  | .bang :: _ => level ≤ Order.unaryPrefix.rank
  | .left _ op :: _ => level < op.order.rank
  | _ => True

def EndsAt (level : Nat) : List Symbol → Prop
  | .operator op :: _ => level ≤ op.order.rank
  | _ => True

theorem Ready.mono {k' : Nat} (h : Ready k' stack) (hk : k ≤ k') : Ready k stack := by
  unfold Ready at h ⊢
  split <;> first | trivial | (simp only at h; omega)

theorem ready_of_le (hk : k ≤ Order.unaryPrefix.rank) (stack : List Pending) : Ready k stack := by
  unfold Ready
  split
  · exact hk
  · exact lt_of_le_of_lt hk (Operator.three_le_rank _)
  · trivial

theorem EndsAt.mono {k' : Nat} (h : EndsAt k' ss) (hk : k ≤ k') : EndsAt k ss := by
  unfold EndsAt at h ⊢
  split <;> first | trivial | (simp only at h; omega)

theorem endsAt_of_le (hk : k ≤ Order.unaryPrefix.rank) (ss : List Symbol) : EndsAt k ss := by
  unfold EndsAt
  split
  · exact hk.trans ((by decide : Order.unaryPrefix.rank ≤ 3).trans (Operator.three_le_rank _))
  · trivial

/-! ### Every canonical formula is read -/

theorem parseOperator_bang (stack : List Pending) (f : Formula) (ss : List Symbol) :
    parseOperator (.bang :: stack) f ss = parseOperator stack (.not f) ss := by
  cases ss with
  | nil => rfl
  | cons s ss => cases s <;> rfl

theorem parseOperator_left (h : EndsAt op.order.rank ss) (stack : List Pending) (l r : Formula) :
    parseOperator (.left l op :: stack) r ss = parseOperator stack (.binary op l r) ss := by
  have hclose : ∀ {limit : Nat}, op.order.rank ≤ limit →
      close limit (.left l op :: stack) r = close limit stack (.binary op l r) := fun hle => by
    rw [close, if_pos hle]
  cases ss with
  | nil => simp only [parseOperator, hclose op.rank_le_none]
  | cons s ss =>
    cases s with
    | operator op' => simp only [parseOperator, hclose (show op.order.rank ≤ op'.order.rank from h)]
    | closing => simp only [parseOperator, hclose op.rank_le_none]
    | _ => rfl

theorem close_of_ready (h : Ready op.order.rank stack) (f : Formula) : close op.order.rank stack f = (stack, f) := by
  cases stack with
  | nil => rfl
  | cons p stack =>
    cases p with
    | bang => exact absurd (show op.order.rank ≤ 2 from h) (by have := op.three_le_rank; omega)
    | left l op' => rw [close, if_neg (Nat.not_le.mpr h)]
    | opening => rfl

theorem parseOperand_symbols (hf : f.Canonical) (hready : Ready f.level stack) (hends : EndsAt f.level ss) :
    parseOperand stack (f.symbols ++ ss) = parseOperator stack f ss := by
  induction f generalizing stack ss with
  | leaf w => rfl
  | not f ih =>
    show parseOperand (.bang :: stack) (f.symbols ++ ss) = _
    have hready' : Ready f.level (.bang :: stack) := hf.2
    rw [ih hf.1 hready' (endsAt_of_le hf.2 ss), parseOperator_bang]
  | binary op l r ihl ihr =>
    obtain ⟨hl, hr, hleft, hright⟩ := hf
    calc parseOperand stack ((binary op l r).symbols ++ ss)
        = parseOperand stack (l.symbols ++ .operator op :: (r.symbols ++ ss)) := by
          rw [symbols, List.append_assoc, cons_append]
      _ = parseOperator stack l (.operator op :: (r.symbols ++ ss)) := ihl hl (hready.mono hleft) hleft
      _ = parseOperand (.left l op :: stack) (r.symbols ++ ss) := by
          rw [parseOperator, close_of_ready hready]
      _ = parseOperator (.left l op :: stack) r ss := ihr hr hright (hends.mono hright.le)
      _ = parseOperator stack (.binary op l r) ss := parseOperator_left hends stack l r
  | paren f ih =>
    have hready' : Ready f.level (.opening :: stack) := trivial
    have hends' : EndsAt f.level (.closing :: ss) := trivial
    calc parseOperand stack ((paren f).symbols ++ ss)
        = parseOperand (.opening :: stack) (f.symbols ++ .closing :: ss) := by
          rw [symbols, cons_append, List.append_assoc, parseOperand, singleton_append]
      _ = parseOperator (.opening :: stack) f (.closing :: ss) := ih hf hready' hends'
      _ = parseOperator stack (.paren f) ss := rfl

theorem parse_symbols (hf : f.Canonical) : parse f.symbols = some f := by
  have h : parseOperand [] (f.symbols ++ []) = parseOperator [] f [] := parseOperand_symbols hf trivial trivial
  rw [append_nil] at h
  exact h

/-! ### Nothing else is read -/

def written : List Pending → List Symbol
  | [] => []
  | .bang :: stack => written stack ++ [.bang]
  | .left l op :: stack => written stack ++ (l.symbols ++ [.operator op])
  | .opening :: stack => written stack ++ [.opening]

def SoundStack : List Pending → Prop
  | [] => True
  | .bang :: stack | .opening :: stack => SoundStack stack
  | .left l op :: stack =>
    l.Canonical ∧ l.level ≤ op.order.rank ∧ Ready op.order.rank stack ∧ SoundStack stack

structure Fits (stack : List Pending) (f : Formula) : Prop where
  below : SoundStack stack
  canonical : f.Canonical
  ready : Ready f.level stack

theorem two_le_none : Order.unaryPrefix.rank ≤ Order.none.rank := by decide

theorem close_spec {limit : Nat} (hlimit : Order.unaryPrefix.rank ≤ limit) :
    ∀ {stack : List Pending} {f : Formula}, Fits stack f → f.level ≤ limit →
      Fits (close limit stack f).1 (close limit stack f).2
        ∧ (close limit stack f).2.level ≤ limit
        ∧ (∀ k ≤ limit, Ready k (close limit stack f).1)
        ∧ written (close limit stack f).1 ++ (close limit stack f).2.symbols = written stack ++ f.symbols
  | [], f, h, hf => ⟨h, hf, fun _ _ => trivial, rfl⟩
  | .opening :: stack, f, h, hf => ⟨h, hf, fun _ _ => trivial, rfl⟩
  | .bang :: stack, f, h, hf => by
    have hnot : Fits stack (.not f) := ⟨h.below, ⟨h.canonical, h.ready⟩, ready_of_le (Nat.le_refl _) stack⟩
    obtain ⟨hfits, hlevel, hready, hwritten⟩ := close_spec hlimit hnot hlimit
    refine ⟨hfits, hlevel, hready, hwritten.trans ?_⟩
    rw [symbols, written, List.append_assoc, singleton_append]
  | .left l op :: stack, f, h, hf => by
    rw [close]
    split
    case isTrue hle =>
      obtain ⟨hl, hleft, hready, hstack⟩ := h.below
      have hbinary : Fits stack (.binary op l f) := ⟨hstack, ⟨hl, h.canonical, hleft, h.ready⟩, hready⟩
      obtain ⟨hfits, hlevel, hready, hwritten⟩ := close_spec hlimit hbinary hle
      refine ⟨hfits, hlevel, hready, hwritten.trans ?_⟩
      rw [symbols, written, List.append_assoc, List.append_assoc, singleton_append]
    case isFalse hle =>
      exact ⟨h, hf, fun k hk => lt_of_le_of_lt hk (Nat.not_le.mp hle), rfl⟩

mutual
theorem canonical_of_parseOperand : ∀ {ss : List Symbol} {stack : List Pending},
    SoundStack stack → parseOperand stack ss = some f → f.Canonical ∧ f.symbols = written stack ++ ss
  | [], _, _, h => by simp [parseOperand] at h
  | .operator _ :: _, _, _, h => by simp [parseOperand] at h
  | .closing :: _, _, _, h => by simp [parseOperand] at h
  | .leaf w :: ss, stack, hstack, h =>
    have hleaf : Fits stack (.leaf w) := ⟨hstack, trivial, ready_of_le (Nat.zero_le _) stack⟩
    canonical_of_parseOperator hleaf (Nat.le_refl _) h
  | .bang :: ss, stack, hstack, h => by
    have hstack' : SoundStack (.bang :: stack) := hstack
    obtain ⟨hf, hsymbols⟩ := canonical_of_parseOperand hstack' h
    rw [written, List.append_assoc] at hsymbols
    exact ⟨hf, hsymbols⟩
  | .opening :: ss, stack, hstack, h => by
    have hstack' : SoundStack (.opening :: stack) := hstack
    obtain ⟨hf, hsymbols⟩ := canonical_of_parseOperand hstack' h
    rw [written, List.append_assoc] at hsymbols
    exact ⟨hf, hsymbols⟩
theorem canonical_of_parseOperator :
    ∀ {ss : List Symbol} {stack : List Pending} {e : Formula}, Fits stack e → e.level ≤ 0 →
      parseOperator stack e ss = some f → f.Canonical ∧ f.symbols = written stack ++ (e.symbols ++ ss)
  | .leaf _ :: _, _, _, _, _, h => by simp [parseOperator] at h
  | .bang :: _, _, _, _, _, h => by simp [parseOperator] at h
  | .opening :: _, _, _, _, _, h => by simp [parseOperator] at h
  | [], stack, e, hfits, he, h => by
    obtain ⟨hclosed, -, -, hwritten⟩ := close_spec two_le_none hfits (he.trans (Nat.zero_le _))
    rw [parseOperator] at h
    split at h
    case h_1 e' heq =>
      rw [heq] at hclosed hwritten
      cases h
      rw [append_nil, ← hwritten]
      exact ⟨hclosed.canonical, rfl⟩
    case h_2 => cases h
  | .operator op :: ss, stack, e, hfits, he, h => by
    obtain ⟨hclosed, hlevel, hready, hwritten⟩ := close_spec
      (Nat.le_of_succ_le op.three_le_rank) hfits (he.trans (Nat.zero_le _))
    have hstack : SoundStack (.left (close op.order.rank stack e).2 op :: (close op.order.rank stack e).1) :=
      ⟨hclosed.canonical, hlevel, hready _ (Nat.le_refl _), hclosed.below⟩
    obtain ⟨hf, hsymbols⟩ := canonical_of_parseOperand hstack h
    refine ⟨hf, ?_⟩
    rw [hsymbols, written, ← List.append_assoc (written _), hwritten]
    simp only [List.append_assoc, singleton_append]
  | .closing :: ss, stack, e, hfits, he, h => by
    obtain ⟨hclosed, -, -, hwritten⟩ := close_spec two_le_none hfits (he.trans (Nat.zero_le _))
    rw [parseOperator] at h
    split at h
    case h_1 stack' e' heq =>
      rw [heq] at hclosed hwritten
      have hparen : Fits stack' (.paren e') := ⟨hclosed.below, hclosed.canonical, ready_of_le (Nat.zero_le _) stack'⟩
      obtain ⟨hf, hsymbols⟩ := canonical_of_parseOperator hparen (Nat.le_refl _) h
      refine ⟨hf, ?_⟩
      rw [hsymbols, ← List.append_assoc (written stack), ← hwritten, written, symbols]
      simp only [List.append_assoc, cons_append, nil_append]
    case h_2 => cases h
end

theorem parse_eq_some_iff : parse ss = some f ↔ f.Canonical ∧ f.symbols = ss := by
  constructor
  · exact canonical_of_parseOperand trivial
  · rintro ⟨hf, rfl⟩
    exact parse_symbols hf

/-! ## Texts -/

def text : Formula → String
  | .leaf w => w
  | .not f => "!" ++ f.text
  | .binary op l r => l.text ++ " " ++ op.symbol ++ " " ++ r.text
  | .paren f => "(" ++ f.text ++ ")"

def mark? (c : Char) (next : Option Char) : Option (List Symbol) :=
  if c = ' ' then some []
  else if c = '(' then some [.opening]
  else if c = ')' then some [.closing]
  else if c = '!' ∧ next ≠ some '=' then some [.bang]
  else none

def wordSymbols (word : List Char) : List Symbol :=
  if word.isEmpty then []
  else match Operator.all.find? fun op => op.symbol.toList == word with
    | some op => [.operator op]
    | none => [.leaf (String.ofList word)]

def symbolsFrom (word : List Char) : List Char → List Symbol
  | [] => wordSymbols word
  | c :: cs => match mark? c cs.head? with
    | none => symbolsFrom (word ++ [c]) cs
    | some marks => wordSymbols word ++ (marks ++ symbolsFrom [] cs)

def symbolsOf (s : String) : List Symbol := symbolsFrom [] s.toList

def signChars : List Char := "+-*/=!<>&|".toList

/-- **A word that is read as a leaf**: nothing in it ends a word, and not all of it is signs. -/
structure IsLeaf (w : String) : Prop where
  inside : ∀ c ∈ w.toList, c ∉ " ()!=".toList
  proper : ∃ c ∈ w.toList, c ∉ signChars

def Lexical : Formula → Prop
  | .leaf w => IsLeaf w
  | .not f => f.Lexical
  | .binary _ l r => l.Lexical ∧ r.Lexical
  | .paren f => f.Lexical

def IsBreak : List Char → Prop
  | [] => True
  | c :: _ => c = ' ' ∨ c = ')'

theorem symbolsFrom_of_isBreak (h : IsBreak cs) (word : List Char) :
    symbolsFrom word cs = wordSymbols word ++ symbolsFrom [] cs := by
  cases cs with
  | nil => exact (append_nil _).symm
  | cons c cs => rcases h with rfl | rfl <;> rfl

theorem symbolsFrom_append {w : List Char} (hw : ∀ c ∈ w, c ∉ " ()!=".toList) (word cs : List Char) :
    symbolsFrom word (w ++ cs) = symbolsFrom (word ++ w) cs := by
  induction w generalizing word with
  | nil => rw [append_nil, nil_append]
  | cons c w ih =>
    obtain ⟨hc, hw⟩ := forall_mem_cons.mp hw
    have hmark : mark? c (w ++ cs).head? = none := by
      have hne : c ≠ ' ' ∧ c ≠ '(' ∧ c ≠ ')' ∧ c ≠ '!' ∧ c ≠ '=' := by simpa using hc
      simp only [mark?, hne, if_false, false_and]
    rw [cons_append, symbolsFrom, hmark]
    show symbolsFrom (word ++ [c]) (w ++ cs) = _
    rw [ih hw, List.append_assoc, singleton_append]

theorem wordSymbols_of_isLeaf {w : String} (h : IsLeaf w) : wordSymbols w.toList = [.leaf w] := by
  have hsign : ∀ op ∈ Operator.all, ∀ c ∈ op.symbol.toList, c ∈ signChars := by decide
  obtain ⟨c, hc, hproper⟩ := h.proper
  have hnone : (Operator.all.find? fun op => op.symbol.toList == w.toList) = none := by
    refine find?_eq_none.mpr fun op hop heq => hproper (hsign op hop c ?_)
    rw [beq_iff_eq.mp heq]
    exact hc
  rw [wordSymbols, hnone, if_neg (by simpa using ne_nil_of_mem hc)]
  show [Symbol.leaf (ofList w.toList)] = _
  rw [ofList_toList]

theorem symbolsFrom_leaf {w : String} (h : IsLeaf w) (hcs : IsBreak cs) :
    symbolsFrom [] (w.toList ++ cs) = .leaf w :: symbolsFrom [] cs := by
  rw [symbolsFrom_append h.inside, nil_append, symbolsFrom_of_isBreak hcs, wordSymbols_of_isLeaf h, singleton_append]

theorem symbolsFrom_operator (op : Operator) (cs : List Char) :
    symbolsFrom [] (' ' :: (op.symbol.toList ++ ' ' :: cs)) = .operator op :: symbolsFrom [] cs := by
  cases op <;> rfl

theorem symbolsFrom_bang (h : cs.head? ≠ some '=') : symbolsFrom [] ('!' :: cs) = .bang :: symbolsFrom [] cs := by
  have hmark : mark? '!' cs.head? = some [.bang] := if_pos (c := '!' = '!' ∧ _) ⟨rfl, h⟩
  rw [symbolsFrom, hmark]
  rfl

theorem head?_text (hf : f.Lexical) (cs : List Char) : (f.text.toList ++ cs).head? ≠ some '=' := by
  induction f generalizing cs with
  | leaf w =>
    obtain ⟨c, hc, -⟩ := hf.proper
    intro h
    rw [text, head?_append_of_ne_nil _ (ne_nil_of_mem hc)] at h
    exact hf.inside '=' (mem_of_head? h) (by decide)
  | not f ih => simp [text]
  | binary op l r ihl ihr =>
    simp only [text, toList_append, List.append_assoc]
    exact ihl hf.1 _
  | paren f ih => simp [text]

theorem symbolsFrom_text (hf : f.Lexical) (hcs : IsBreak cs) :
    symbolsFrom [] (f.text.toList ++ cs) = f.symbols ++ symbolsFrom [] cs := by
  induction f generalizing cs with
  | leaf w => exact symbolsFrom_leaf hf hcs
  | not f ih =>
    have hinner : f.Lexical := hf
    calc symbolsFrom [] ((not f).text.toList ++ cs) = symbolsFrom [] ('!' :: (f.text.toList ++ cs)) := by
          rw [text, toList_append]
          rfl
      _ = .bang :: symbolsFrom [] (f.text.toList ++ cs) := symbolsFrom_bang (head?_text hinner cs)
      _ = (not f).symbols ++ symbolsFrom [] cs := by rw [ih hinner hcs, symbols, cons_append]
  | binary op l r ihl ihr =>
    have hbreak : IsBreak (' ' :: (op.symbol.toList ++ ' ' :: (r.text.toList ++ cs))) := .inl rfl
    calc symbolsFrom [] ((binary op l r).text.toList ++ cs) = symbolsFrom [] (l.text.toList
            ++ ' ' :: (op.symbol.toList ++ ' ' :: (r.text.toList ++ cs))) := by
          simp only [text, toList_append, List.append_assoc]
          rfl
      _ = l.symbols ++ .operator op :: symbolsFrom [] (r.text.toList ++ cs) := by
          rw [ihl hf.1 hbreak, symbolsFrom_operator]
      _ = (binary op l r).symbols ++ symbolsFrom [] cs := by
          rw [ihr hf.2 hcs, symbols, List.append_assoc, cons_append]
  | paren f ih =>
    calc symbolsFrom [] ((paren f).text.toList ++ cs) = .opening :: symbolsFrom [] (f.text.toList ++ ')' :: cs) := by
          simp only [text, toList_append, List.append_assoc]
          rfl
      _ = .opening :: (f.symbols ++ .closing :: symbolsFrom [] cs) := by
          rw [ih hf (show IsBreak (')' :: cs) from .inr rfl)]
          rfl
      _ = (paren f).symbols ++ symbolsFrom [] cs := by
          rw [symbols, cons_append, List.append_assoc, singleton_append]

theorem symbolsOf_text (hf : f.Lexical) : symbolsOf f.text = f.symbols := by
  have h : symbolsFrom [] (f.text.toList ++ []) = f.symbols ++ [] := symbolsFrom_text hf trivial
  rw [append_nil, append_nil] at h
  exact h

def ReadsBack (s : String) (f : Formula) : Prop :=
  ∃ f', parse (symbolsOf s) = some f' ∧ f'.bare = f.bare

theorem readsBack_iff {f' : Formula} (hf : f.Lexical) (hbare : f.bare = f'.bare) :
    ReadsBack f.text f' ↔ f.Canonical := by
  unfold ReadsBack
  rw [symbolsOf_text hf, ← hbare]
  constructor
  · rintro ⟨f'', hparse, hsame⟩
    obtain ⟨hcanonical, hsymbols⟩ := parse_eq_some_iff.mp hparse
    rw [← eq_of_symbols hsame hsymbols]
    exact hcanonical
  · exact fun h => ⟨f, parse_symbols h, rfl⟩

end Formula

end NqcBlocks.Nqc
