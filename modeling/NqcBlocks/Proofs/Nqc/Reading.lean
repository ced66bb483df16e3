import NqcBlocks.Proofs.Nqc.Grammar

/-!
# What tokens read as

Tokens **read as** a tree if the parser takes them for the tree whatever comes after them, as long as
what comes after does not go on with them. For expressions that depends on how tightly the operators
bind: `Reads level us e` says that the tokens `us` read as `e`, and that the operators in `us` outside
parentheses bind at least as tightly as `level`. The lemmas here put larger readings together from
smaller ones, one for each form of expression and statement; that operations of one class are grouped to
the left is `Reads.binary`, whose right operand has to bind more tightly than the operator.
-/

namespace NqcBlocks.Nqc

open List

variable {w x : String} {s : StmtTree}

def inParens (us : List Token) : List Token := .sign "(" :: us ++ [.sign ")"]

def inBraces (us : List Token) : List Token := .sign "\x7b" :: us ++ [.sign "\x7d"]

@[simp] theorem length_inParens (us : List Token) : (inParens us).length = us.length + 2 := by
  simp [inParens]

@[simp] theorem length_inBraces (us : List Token) : (inBraces us).length = us.length + 2 := by
  simp [inBraces]

/-! ## Expressions -/

def statementWords : List String :=
  ["task", "int", "repeat", "while", "do", "if", "else", "start", "stop"]

/-- **Tokens that can start a statement which is an expression**: no word with a meaning of its own, and
no name that is called or set. -/
def StartsPlainly (us : List Token) : Prop :=
  ∃ u vs, us = u :: vs ∧ u ≠ .sign "\x7d" ∧ ∀ w, u = .word w →
    w ∉ statementWords ∧ vs.head? ≠ some (.sign "(") ∧ vs.head? ≠ some (.sign "=")

/-- **Tokens read as an expression.** After the tokens the parser is about to go on with operations on
what it has read; it has used at most two steps for each token. -/
structure Reads (level : Nat) (us : List Token) (e : ExprTree) : Prop where
  operand : 7 ≤ level → ∀ fuel rest, 2 * us.length < fuel →
    operand fuel (us ++ rest) = some (e, rest)
  expression : ∀ fuel least rest, 2 * us.length < fuel → least ≤ level →
    (∀ op ∈ Operator.ofTokens? rest, op.level ≤ level) →
      ∃ fuel', fuel ≤ fuel' + 2 * us.length
        ∧ expression fuel least (us ++ rest) = operations fuel' least e rest
  plain : StartsPlainly us

theorem Operator.ofTokens?_token (op : Operator) (ts : List Token) :
    Operator.ofTokens? (op.token :: ts) = some op := by
  cases op <;> rfl

theorem operations_of_stop {fuel least : Nat} (e : ExprTree) {ts : List Token} (hfuel : 0 < fuel)
    (h : ∀ op ∈ Operator.ofTokens? ts, op.level < least) :
    operations fuel least e ts = some (e, ts) := by
  obtain ⟨fuel, rfl⟩ : ∃ i, fuel = i + 1 := ⟨fuel - 1, by omega⟩
  rw [operations]
  cases hop : Operator.ofTokens? ts with
  | none => rfl
  | some op =>
    have hlevel := h op hop
    exact if_neg (by omega)

namespace Reads

variable {level : Nat} {us : List Token} {e : ExprTree}

theorem of_operand (hne : us ≠ [])
    (h : ∀ {fuel rest}, 2 * us.length < fuel + 1 → Nqc.operand fuel (us ++ rest) = some (e, rest))
    (hplain : StartsPlainly us) : Reads level us e where
  operand _ _ _ hfuel := h (by omega)
  expression fuel least rest hfuel _ _ := by
    have hpos := length_pos_of_ne_nil hne
    obtain ⟨fuel, rfl⟩ : ∃ i, fuel = i + 1 := ⟨fuel - 1, by omega⟩
    refine ⟨fuel, by omega, ?_⟩
    rw [Nqc.expression, h hfuel]
    rfl
  plain := hplain

theorem whole (h : Reads level us e) (fuel : Nat) (rest : List Token) (hfuel : 2 * us.length < fuel)
    (hrest : Operator.ofTokens? rest = none) : Nqc.expression fuel 0 (us ++ rest) = some (e, rest) := by
  obtain ⟨fuel', hle, heq⟩ := h.expression fuel 0 rest hfuel (Nat.zero_le level) (by rw [hrest]; exact nofun)
  rw [heq]
  exact operations_of_stop e (by omega) (by rw [hrest]; exact nofun)

theorem of_token {u : Token} (h : ∀ {fuel rest}, Nqc.operand (fuel + 1) (u :: rest) = some (e, rest))
    (hplain : StartsPlainly [u]) : Reads level [u] e :=
  of_operand (cons_ne_nil _ _) (fun {fuel rest} hfuel => by
    obtain ⟨fuel, rfl⟩ : ∃ i, fuel = i + 1 := ⟨fuel - 1, by
      rw [length_singleton] at hfuel
      omega⟩
    exact h) hplain

theorem number (n : Nat) : Reads 8 [.number n] (.number n) :=
  of_token rfl ⟨_, _, rfl, nofun, nofun⟩

theorem truth (b : Bool) : Reads 8 [.word (if b then "true" else "false")] (.truth b) := by
  cases b with
  | false => exact of_token rfl ⟨_, _, rfl, nofun, fun w hw => by cases hw; decide⟩
  | true => exact of_token rfl ⟨_, _, rfl, nofun, fun w hw => by cases hw; decide⟩

theorem name (h : isIdentifier w = true) : Reads 8 [.word w] (.name w) := by
  have hne : ∀ x ∈ grammarWords, w ≠ x := by
    rintro x hx rfl
    unfold isIdentifier at h
    rw [contains_iff_mem.mpr hx] at h
    cases h
  refine of_token (fun {fuel rest} => ?_) ⟨_, _, rfl, nofun, fun w' hw => ?_⟩
  · rw [Nqc.operand, if_neg (hne "true" (by decide)), if_neg (hne "false" (by decide)), if_pos h]
  · cases hw
    have hsub : ∀ x ∈ statementWords, x ∈ grammarWords := by decide
    exact ⟨fun hw => hne w (hsub w hw) rfl, nofun, nofun⟩

theorem signed {s : String} {f : ExprTree → ExprTree} (h : Reads level us e) (hlevel : 7 ≤ level)
    (hs : ∀ {fuel ts}, Nqc.operand (fuel + 1) (.sign s :: ts) = (Nqc.operand fuel ts).map fun (e, ts) => (f e, ts))
    (hne : s ≠ "\x7d") : Reads 7 (.sign s :: us) (f e) := by
  refine of_operand (cons_ne_nil _ _) (fun {fuel rest} hfuel => ?_)
    ⟨_, _, rfl, fun heq => hne (Token.sign.inj heq), nofun⟩
  rw [length_cons] at hfuel
  obtain ⟨fuel, rfl⟩ : ∃ i, fuel = i + 1 := ⟨fuel - 1, by omega⟩
  rw [cons_append, hs, h.operand hlevel fuel rest (by omega)]
  rfl

theorem minus (h : Reads level us e) (hlevel : 7 ≤ level) : Reads 7 (.sign "-" :: us) (.minus e) :=
  h.signed hlevel (fun {fuel ts} => by
    rw [Nqc.operand, if_pos rfl]
    cases Nqc.operand fuel ts <;> rfl) (by decide)

theorem not (h : Reads level us e) (hlevel : 7 ≤ level) : Reads 7 (.sign "!" :: us) (.not e) :=
  h.signed hlevel (fun {fuel ts} => by
    rw [Nqc.operand, if_neg (by decide), if_pos rfl]
    cases Nqc.operand fuel ts <;> rfl) (by decide)

theorem group (h : Reads level us e) : Reads 8 (inParens us) e := by
  refine of_operand (cons_ne_nil _ _) (fun {fuel rest} hfuel => ?_) ⟨_, _, rfl, by decide, nofun⟩
  rw [length_inParens] at hfuel
  obtain ⟨fuel, rfl⟩ : ∃ i, fuel = i + 1 := ⟨fuel - 1, by omega⟩
  have hinner := h.whole fuel (.sign ")" :: rest) (by omega) rfl
  rw [inParens, cons_append, cons_append, append_assoc, Nqc.operand,
    if_neg (by decide), if_neg (by decide), if_pos rfl]
  show (Nqc.expression fuel 0 (us ++ .sign ")" :: rest) >>= _) = _
  rw [hinner]
  rfl

theorem binary {op : Operator} {k k' : Nat} {ls rs : List Token} {l r : ExprTree}
    (hl : Reads k ls l) (hr : Reads k' rs r) (hk : op.level ≤ k) (hk' : op.level < k') :
    Reads op.level (ls ++ op.token :: rs) (.binary op l r) where
  operand h := by
    have hsmall : op.level ≤ 6 := by cases op <;> decide
    omega
  expression fuel least rest hfuel hleast hrest := by
    rw [length_append, length_cons] at hfuel
    obtain ⟨fuel₁, hfuel₁, hleft⟩ := hl.expression fuel least (op.token :: (rs ++ rest)) (by omega) (by omega) (by
        rw [Operator.ofTokens?_token]
        intro op' hop'
        cases hop'
        exact hk)
    obtain ⟨fuel₁, rfl⟩ : ∃ i, fuel₁ = i + 1 := ⟨fuel₁ - 1, by omega⟩
    have hright : Nqc.expression fuel₁ (op.level + 1) (rs ++ rest) = some (r, rest) := by
      obtain ⟨fuel₂, hfuel₂, heq⟩ := hr.expression fuel₁ (op.level + 1) rest (by omega) hk'
        fun op' hop' => by have := hrest op' hop'; omega
      rw [heq]
      exact operations_of_stop r (by omega) fun op' hop' => by have := hrest op' hop'; omega
    refine ⟨fuel₁, by rw [length_append, length_cons]; omega, ?_⟩
    rw [append_assoc, cons_append, hleft, operations, Operator.ofTokens?_token]
    show (if least ≤ op.level then _ else _) = _
    rw [if_pos hleast, tail_cons, hright]
    rfl
  plain := by
    obtain ⟨u, vs, rfl, hne, hw⟩ := hl.plain
    refine ⟨u, vs ++ op.token :: rs, rfl, hne, fun w huw => ⟨(hw w huw).1, ?_⟩⟩
    cases vs with
    | nil =>
      have hsign : op.token ≠ .sign "(" ∧ op.token ≠ .sign "=" := by cases op <;> decide
      exact ⟨fun h => hsign.1 (Option.some.inj h), fun h => hsign.2 (Option.some.inj h)⟩
    | cons v vs => exact (hw w huw).2

end Reads

theorem Reads.parenthesized {level : Nat} {us : List Token} {e : ExprTree} (h : Reads level us e)
    (fuel : Nat) (rest : List Token) (hfuel : 2 * us.length < fuel) :
    parenthesized fuel (inParens us ++ rest) = some (e, rest) := by
  have hinner := h.whole fuel (.sign ")" :: rest) hfuel rfl
  rw [inParens, append_assoc, cons_append, Nqc.parenthesized]
  show (Nqc.expression fuel 0 (us ++ .sign ")" :: rest) >>= _) = _
  rw [hinner]
  rfl

/-! ## Statements -/

def nonStarters : List Token := [.sign "\x7d", .word "else", .word "task"]

/-- **Tokens read as a statement**, unless the word `else` follows. -/
structure ReadsStmt (us : List Token) (s : StmtTree) : Prop where
  first : ∃ u vs, us = u :: vs ∧ u ∉ nonStarters
  statement : ∀ fuel rest, 2 * us.length < fuel → rest.head? ≠ some (.word "else") →
    statement fuel (us ++ rest) = some (s, rest)

def ReadsStmts (us : List Token) (ss : List StmtTree) : Prop :=
  ∃ pieces : List (List Token), us = pieces.flatten ∧ List.Forall₂ ReadsStmt pieces ss

namespace ReadsStmts

variable {us vs : List Token} {ss ss' : List StmtTree}

theorem nil : ReadsStmts [] [] := ⟨[], rfl, .nil⟩

theorem of_stmt (h : ReadsStmt us s) : ReadsStmts us [s] :=
  ⟨[us], by simp, .cons h .nil⟩

theorem append (h : ReadsStmts us ss) (h' : ReadsStmts vs ss') : ReadsStmts (us ++ vs) (ss ++ ss') := by
  obtain ⟨pieces, rfl, hpieces⟩ := h
  obtain ⟨pieces', rfl, hpieces'⟩ := h'
  exact ⟨pieces ++ pieces', List.flatten_append.symm, rel_append hpieces hpieces'⟩

theorem head?_ne {rest : List Token} (h : ReadsStmts us ss)
    (hrest : rest.head? = none ∨ rest.head? = some (.sign "\x7d")) :
    (us ++ rest).head? ≠ some (.word "else") := by
  obtain ⟨pieces, rfl, hpieces⟩ := h
  cases hpieces with
  | nil =>
    rcases hrest with h | h
    · rw [flatten_nil, nil_append, h]
      exact nofun
    · rw [flatten_nil, nil_append, h]
      decide
  | cons h _ =>
    obtain ⟨u, vs, rfl, hu⟩ := h.first
    rintro heq
    cases Option.some.inj heq
    exact hu (by decide)

theorem statements (h : ReadsStmts us ss) : ∀ fuel rest, 2 * us.length + 1 < fuel →
    rest.head? = none ∨ rest.head? = some (.sign "\x7d") → statements fuel (us ++ rest) = some (ss, rest) := by
  obtain ⟨pieces, rfl, hpieces⟩ := h
  induction hpieces with
  | nil =>
    intro fuel rest hfuel hrest
    obtain ⟨fuel, rfl⟩ : ∃ i, fuel = i + 1 := ⟨fuel - 1, by omega⟩
    rw [flatten_nil, nil_append, Nqc.statements, if_pos hrest]
  | @cons piece s pieces ss hstmt hpieces ih =>
    intro fuel rest hfuel hrest
    rw [flatten_cons, length_append] at hfuel
    obtain ⟨fuel, rfl⟩ : ∃ i, fuel = i + 1 := ⟨fuel - 1, by omega⟩
    obtain ⟨u, vs, rfl, hu⟩ := hstmt.first
    rw [length_cons] at hfuel
    have hgo : ¬ ((((u :: vs) :: pieces).flatten ++ rest).head? = none
        ∨ (((u :: vs) :: pieces).flatten ++ rest).head? = some (.sign "\x7d")) := by
      rintro (heq | heq)
      · cases heq
      · cases Option.some.inj heq
        exact hu (by decide)
    rw [Nqc.statements, if_neg hgo, flatten_cons, append_assoc, hstmt.statement fuel _ (by rw [length_cons]; omega)
        (head?_ne ⟨pieces, rfl, hpieces⟩ hrest)]
    show (Nqc.statements fuel (pieces.flatten ++ rest) >>= _) = _
    rw [ih fuel rest (by omega) hrest]
    rfl

theorem block (h : ReadsStmts us ss) (fuel : Nat) (rest : List Token)
    (hfuel : 2 * (us.length + 2) < fuel) : block fuel (inBraces us ++ rest) = some (ss, rest) := by
  obtain ⟨fuel, rfl⟩ : ∃ i, fuel = i + 1 := ⟨fuel - 1, by omega⟩
  have hinner := h.statements fuel (.sign "\x7d" :: rest) (by omega) (.inr rfl)
  rw [inBraces, append_assoc, cons_append, Nqc.block]
  show (Nqc.statements fuel (us ++ .sign "\x7d" :: rest) >>= _) = _
  rw [hinner]
  rfl

end ReadsStmts

/-! ## Forms of statements -/

section Forms

variable {level : Nat} {us vs : List Token} {e : ExprTree} {ss : List StmtTree}

theorem ReadsStmt.of_nameAndEnd {f : String → StmtTree} (hx : isIdentifier x = true)
    (hw : Token.word w ∉ nonStarters) (h : ∀ {fuel ts}, Nqc.statement (fuel + 1) (.word w :: ts)
      = (nameAndEnd ts).map fun (name, ts) => (f name, ts)) :
    ReadsStmt [.word w, .word x, .sign ";"] (f x) where
  first := ⟨_, _, rfl, hw⟩
  statement fuel rest hfuel _ := by
    obtain ⟨fuel, rfl⟩ : ∃ i, fuel = i + 1 := ⟨fuel - 1, by
      simp only [length_cons, length_nil] at hfuel
      omega⟩
    rw [cons_append, h, cons_append, nameAndEnd, if_pos hx]
    rfl

theorem ReadsStmt.declare (hx : isIdentifier x = true) : ReadsStmt [.word "int", .word x, .sign ";"] (.declare x) :=
  .of_nameAndEnd hx (by decide) (by intros; rw [Nqc.statement, if_pos rfl])

theorem ReadsStmt.start (hx : isIdentifier x = true) : ReadsStmt [.word "start", .word x, .sign ";"] (.start x) :=
  .of_nameAndEnd hx (by decide) (by intros; rw [Nqc.statement, if_neg (by decide), if_pos rfl])

theorem ReadsStmt.stop (hx : isIdentifier x = true) : ReadsStmt [.word "stop", .word x, .sign ";"] (.stop x) :=
  .of_nameAndEnd hx (by decide) (by
    intros
    rw [Nqc.statement, if_neg (by decide), if_neg (by decide), if_pos rfl])

theorem ReadsStmt.of_simple {u : Token} (hu : u ≠ .sign "\x7d")
    (hw : ∀ w, u = .word w → w ∉ statementWords) (h : ∀ fuel rest, 2 * us.length + 1 < fuel →
      simpleStatement fuel (u :: us ++ rest) = some (s, rest)) : ReadsStmt (u :: us) s where
  first := by
    refine ⟨u, us, rfl, ?_⟩
    simp only [nonStarters, mem_cons, not_mem_nil, or_false, not_or]
    refine ⟨hu, ?_, ?_⟩
    · rintro rfl
      exact hw _ rfl (by decide)
    · rintro rfl
      exact hw _ rfl (by decide)
  statement fuel rest hfuel _ := by
    rw [length_cons] at hfuel
    obtain ⟨fuel, rfl⟩ : ∃ i, fuel = i + 1 := ⟨fuel - 1, by omega⟩
    rw [← h fuel rest (by omega), cons_append]
    cases u with
    | word w =>
      have hne : ∀ x ∈ statementWords, w ≠ x := by
        rintro x hx rfl
        exact hw w rfl hx
      rw [Nqc.statement, if_neg (hne _ (by decide)), if_neg (hne _ (by decide)),
        if_neg (hne _ (by decide)), if_neg (hne _ (by decide)), if_neg (hne _ (by decide)),
        if_neg (hne _ (by decide)), if_neg (hne _ (by decide))]
    | number n => rfl
    | sign s => rfl

def ReadsArguments (us : List Token) (es : List ExprTree) : Prop :=
  ∀ fuel rest, 2 * us.length < fuel → arguments fuel (us ++ rest) = some (es, rest)

theorem ReadsArguments.last (h : Reads level us e) : ReadsArguments (us ++ [.sign ")"]) [e] := by
  intro fuel rest hfuel
  rw [length_append, length_singleton] at hfuel
  obtain ⟨fuel, rfl⟩ : ∃ i, fuel = i + 1 := ⟨fuel - 1, by omega⟩
  rw [append_assoc, singleton_append, arguments, h.whole fuel _ (by omega) rfl]
  rfl

theorem ReadsArguments.cons {es : List ExprTree} (h : Reads level us e)
    (hvs : ReadsArguments vs es) : ReadsArguments (us ++ .sign "," :: vs) (e :: es) := by
  intro fuel rest hfuel
  rw [length_append, length_cons] at hfuel
  obtain ⟨fuel, rfl⟩ : ∃ i, fuel = i + 1 := ⟨fuel - 1, by omega⟩
  rw [append_assoc, cons_append, arguments, h.whole fuel _ (by omega) rfl]
  show (arguments fuel (vs ++ rest) >>= _) = _
  rw [hvs fuel rest (by omega)]
  rfl

theorem ReadsStmt.call {f : String} {es : List ExprTree} (hf : f ∉ statementWords) (h : ReadsArguments us es) :
    ReadsStmt (.word f :: .sign "(" :: (us ++ [.sign ";"])) (.call f es) := by
  refine .of_simple nofun (fun w hw => by cases hw; exact hf) fun fuel rest hfuel => ?_
  simp only [length_cons, length_append, length_nil] at hfuel
  simp only [cons_append, append_assoc, nil_append, simpleStatement, if_true]
  rw [h fuel _ (by omega)]
  rfl

theorem ReadsStmt.assign (hx : isIdentifier x = true) (h : Reads level us e) :
    ReadsStmt (.word x :: .sign "=" :: (us ++ [.sign ";"])) (.assign x e) := by
  refine .of_simple nofun (fun w hw => ?_) fun fuel rest hfuel => ?_
  · obtain ⟨u, vs, heq, -, hplain⟩ := (Reads.name hx).plain
    cases heq
    exact (hplain w hw).1
  · simp only [length_cons, length_append, length_nil] at hfuel
    simp only [cons_append, append_assoc, nil_append, simpleStatement]
    rw [if_neg (by decide), if_pos trivial, h.whole fuel _ (by omega) rfl]
    show (if isIdentifier x = true then _ else _) = _
    rw [if_pos hx]

theorem ReadsStmt.expression (h : Reads level us e) : ReadsStmt (us ++ [.sign ";"]) (.expression e) := by
  obtain ⟨u, vs, rfl, hu, hplain⟩ := h.plain
  show ReadsStmt (u :: (vs ++ [.sign ";"])) _
  refine .of_simple hu (fun w hw => (hplain w hw).1) fun fuel rest hfuel => ?_
  rw [length_append, length_singleton] at hfuel
  have hread : simpleStatement.expressionStatement fuel (u :: (vs ++ [.sign ";"]) ++ rest)
      = some (.expression e, rest) := by
    have hwhole := h.whole fuel (.sign ";" :: rest) (by rw [length_cons]; omega) rfl
    unfold simpleStatement.expressionStatement
    rw [cons_append, append_assoc]
    show (Nqc.expression fuel 0 (u :: vs ++ .sign ";" :: rest) >>= _) = _
    rw [hwhole]
    rfl
  unfold simpleStatement
  split
  · next w s more heq =>
    -- the word is followed by an operator or by the end of the statement
    have hs : s ≠ "(" ∧ s ≠ "=" := by
      obtain ⟨rfl, htail⟩ := List.cons.inj heq
      obtain ⟨-, hcall, hset⟩ := hplain w rfl
      cases vs with
      | nil =>
        cases (List.cons.inj htail).1
        decide
      | cons v vs =>
        cases (List.cons.inj htail).1
        exact ⟨fun h => hcall (by rw [h]; rfl), fun h => hset (by rw [h]; rfl)⟩
    rw [if_neg hs.1, if_neg hs.2, hread]
  · exact hread

theorem ReadsStmt.of_word (hw : Token.word w ∉ nonStarters)
    (h : ∀ fuel rest, 2 * us.length + 1 < fuel → rest.head? ≠ some (.word "else") →
      Nqc.statement (fuel + 1) (.word w :: (us ++ rest)) = some (s, rest)) :
    ReadsStmt (.word w :: us) s where
  first := ⟨_, _, rfl, hw⟩
  statement fuel rest hfuel hrest := by
    rw [length_cons] at hfuel
    obtain ⟨fuel, rfl⟩ : ∃ i, fuel = i + 1 := ⟨fuel - 1, by omega⟩
    exact h fuel rest (by omega) hrest

theorem ReadsStmt.repeatLoop (h : Reads level us e) (hbody : ReadsStmts vs ss) :
    ReadsStmt (.word "repeat" :: (inParens us ++ inBraces vs)) (.repeatLoop e ss) := by
  refine .of_word (by decide) fun fuel rest hfuel _ => ?_
  rw [length_append, length_inParens, length_inBraces] at hfuel
  rw [Nqc.statement, if_neg (by decide), if_neg (by decide), if_neg (by decide), if_pos rfl,
    append_assoc, h.parenthesized fuel _ (by omega)]
  show (Nqc.block fuel (inBraces vs ++ rest) >>= _) = _
  rw [hbody.block fuel rest (by omega)]
  rfl

theorem ReadsStmt.whileLoop (h : Reads level us e) (hbody : ReadsStmts vs ss) :
    ReadsStmt (.word "while" :: (inParens us ++ inBraces vs)) (.whileLoop e ss) := by
  refine .of_word (by decide) fun fuel rest hfuel _ => ?_
  rw [length_append, length_inParens, length_inBraces] at hfuel
  rw [Nqc.statement, if_neg (by decide), if_neg (by decide), if_neg (by decide),
    if_neg (by decide), if_pos rfl, append_assoc, h.parenthesized fuel _ (by omega)]
  show (Nqc.block fuel (inBraces vs ++ rest) >>= _) = _
  rw [hbody.block fuel rest (by omega)]
  rfl

theorem ReadsStmt.doWhile (hbody : ReadsStmts vs ss) (h : Reads level us e) :
    ReadsStmt (.word "do" :: (inBraces vs ++ .word "while" :: (inParens us ++ [.sign ";"]))) (.doWhile ss e) := by
  refine .of_word (by decide) fun fuel rest hfuel _ => ?_
  simp only [length_append, length_cons, length_inParens, length_inBraces] at hfuel
  rw [Nqc.statement, if_neg (by decide), if_neg (by decide), if_neg (by decide),
    if_neg (by decide), if_neg (by decide), if_pos rfl, append_assoc,
    hbody.block fuel _ (by omega)]
  show (Nqc.parenthesized fuel ((inParens us ++ [.sign ";"]) ++ rest) >>= _) = _
  rw [append_assoc, h.parenthesized fuel _ (by omega)]
  rfl

/-! ## Branches -/

def ReadsBranches (us : List Token) (arms : List (ExprTree × List StmtTree))
    (otherwise : Option (List StmtTree)) : Prop :=
  ∀ fuel rest, 2 * us.length < fuel → rest.head? ≠ some (.word "else") →
    conditional fuel (us ++ rest) = some ((arms, otherwise), rest)

theorem conditional_eq (h : Reads level us e) (hbody : ReadsStmts vs ss) (fuel : Nat)
    (rest : List Token) (hfuel : 2 * (us.length + vs.length + 4) < fuel) :
    conditional fuel (inParens us ++ inBraces vs ++ rest) = if rest.head? = some (.word "else") then
          if rest.tail.head? = some (.word "if") then
            (conditional (fuel - 1) rest.tail.tail).map fun r => (((e, ss) :: r.1.1, r.1.2), r.2)
          else (block (fuel - 1) rest.tail).map fun r => (([(e, ss)], some r.1), r.2)
        else some (([(e, ss)], none), rest) := by
  obtain ⟨fuel, rfl⟩ : ∃ i, fuel = i + 1 := ⟨fuel - 1, by omega⟩
  rw [conditional, append_assoc, h.parenthesized fuel _ (by omega)]
  show (Nqc.block fuel (inBraces vs ++ rest) >>= _) = _
  rw [hbody.block fuel rest (by omega)]
  refine ite_congr rfl (fun _ => ite_congr rfl (fun _ => ?_) fun _ => ?_) fun _ => rfl
  · show (conditional fuel rest.tail.tail >>= _) = (conditional fuel rest.tail.tail).map _
    cases conditional fuel rest.tail.tail <;> rfl
  · show (Nqc.block fuel rest.tail >>= _) = (Nqc.block fuel rest.tail).map _
    cases Nqc.block fuel rest.tail <;> rfl

theorem ReadsBranches.last (h : Reads level us e) (hbody : ReadsStmts vs ss) :
    ReadsBranches (inParens us ++ inBraces vs) [(e, ss)] none := by
  intro fuel rest hfuel hrest
  rw [length_append, length_inParens, length_inBraces] at hfuel
  rw [conditional_eq h hbody fuel rest (by omega), if_neg hrest]

theorem ReadsBranches.otherwise {ws : List Token} {ss' : List StmtTree} (h : Reads level us e)
    (hbody : ReadsStmts vs ss) (helse : ReadsStmts ws ss') :
    ReadsBranches (inParens us ++ inBraces vs ++ .word "else" :: inBraces ws) [(e, ss)] (some ss') := by
  intro fuel rest hfuel _
  simp only [length_append, length_cons, length_inParens, length_inBraces] at hfuel
  have hbrace : (inBraces ws ++ rest).head? ≠ some (.word "if") := fun h =>
    absurd (Option.some.inj h) (by decide)
  rw [append_assoc _ _ rest, conditional_eq h hbody fuel _ (by omega), cons_append,
    head?_cons, if_pos rfl, tail_cons, if_neg hbrace,
    helse.block (fuel - 1) rest (by omega)]
  rfl

theorem ReadsBranches.cons {ws : List Token} {arms : List (ExprTree × List StmtTree)}
    {otherwise : Option (List StmtTree)} (h : Reads level us e) (hbody : ReadsStmts vs ss)
    (hmore : ReadsBranches ws arms otherwise) :
    ReadsBranches (inParens us ++ inBraces vs ++ .word "else" :: .word "if" :: ws) ((e, ss) :: arms) otherwise := by
  intro fuel rest hfuel hrest
  simp only [length_append, length_cons, length_inParens, length_inBraces] at hfuel
  rw [append_assoc _ _ rest, conditional_eq h hbody fuel _ (by omega), cons_append,
    head?_cons, if_pos rfl, tail_cons, cons_append, head?_cons, if_pos rfl,
    tail_cons, hmore (fuel - 1) rest (by omega) hrest]
  rfl

theorem ReadsStmt.branches {arms : List (ExprTree × List StmtTree)}
    {otherwise : Option (List StmtTree)} (h : ReadsBranches us arms otherwise) :
    ReadsStmt (.word "if" :: us) (.branches arms otherwise) := by
  refine .of_word (by decide) fun fuel rest hfuel hrest => ?_
  rw [Nqc.statement, if_neg (by decide), if_neg (by decide), if_neg (by decide),
    if_neg (by decide), if_neg (by decide), if_neg (by decide), if_pos rfl,
    h fuel rest (by omega) hrest]
  rfl

end Forms

/-! ## Programs -/

/-- **Tokens read as a part of a program.** -/
structure ReadsItems (us : List Token) (is : List ItemTree) : Prop where
  first : us.head? ≠ some (.word "else")
  items : ∀ fuel, 2 * us.length + 1 < fuel → items fuel us = some is

namespace ReadsItems

variable {us vs : List Token} {is : List ItemTree}

theorem nil : ReadsItems [] [] where
  first := nofun
  items fuel hfuel := by
    obtain ⟨fuel, rfl⟩ : ∃ i, fuel = i + 1 := ⟨fuel - 1, by omega⟩
    rfl

theorem stmts {ss : List StmtTree} (h : ReadsStmts us ss) (hrest : ReadsItems vs is) :
    ReadsItems (us ++ vs) (ss.map .statement ++ is) := by
  obtain ⟨pieces, rfl, hpieces⟩ := h
  induction hpieces with
  | nil => exact hrest
  | @cons piece s pieces ss hstmt hpieces ih =>
    obtain ⟨u, ws, rfl, hu⟩ := hstmt.first
    refine ⟨?_, fun fuel hfuel => ?_⟩
    · rintro heq
      cases Option.some.inj heq
      exact hu (by decide)
    · simp only [flatten_cons, length_append, length_cons] at hfuel
      obtain ⟨fuel, rfl⟩ : ∃ i, fuel = i + 1 := ⟨fuel - 1, by omega⟩
      have hne : u ≠ .word "task" := fun h => hu (h ▸ by decide)
      have hfirst := hstmt.statement fuel (pieces.flatten ++ vs) (by rw [length_cons]; omega) ih.first
      rw [flatten_cons, append_assoc, cons_append, Nqc.items, if_neg hne]
      show (Nqc.statement fuel (u :: ws ++ (pieces.flatten ++ vs)) >>= _) = _
      rw [hfirst]
      show (Nqc.items fuel (pieces.flatten ++ vs) >>= _) = _
      rw [ih.items fuel (by rw [length_append]; omega)]
      rfl

theorem task {ss : List StmtTree} (hw : isIdentifier w = true) (h : ReadsStmts us ss) (hrest : ReadsItems vs is) :
    ReadsItems (.word "task" :: .word w :: (inParens [] ++ (inBraces us ++ vs))) (.task w ss :: is) where
  first h := absurd (Option.some.inj h) (by decide)
  items fuel hfuel := by
    simp only [length_cons, length_append, length_inParens, length_inBraces, length_nil] at hfuel
    obtain ⟨fuel, rfl⟩ : ∃ i, fuel = i + 1 := ⟨fuel - 1, by omega⟩
    have htitle : taskTitle (.word w :: (inParens [] ++ (inBraces us ++ vs))) = some (w, inBraces us ++ vs) := by
      rw [taskTitle, if_pos hw]
      rfl
    rw [Nqc.items, if_pos rfl, htitle]
    show (Nqc.block fuel (inBraces us ++ vs) >>= _) = _
    rw [h.block fuel vs (by omega)]
    show (Nqc.items fuel vs >>= _) = _
    rw [hrest.items fuel (by omega)]
    rfl

end ReadsItems

theorem parse_eq_some {s : String} {is : List ItemTree} (h : ReadsItems (tokens s) is) :
    parse s = some is := h.items _ (by omega)

end NqcBlocks.Nqc
