import NqcBlocks.Proofs.Nqc.Reading

/-!
# What texts read as

The text of an expression or of statements **shows** a tree if its tokens read as the tree. A piece of
text that starts or ends with a bracket or white space can be read by itself, and so the text of each
form of expression and statement shows the tree of that form if the texts of its parts show theirs. The
margins in front of nested statements do not matter.
-/

namespace NqcBlocks.Nqc

open List String Number

variable {margin s x : String} {ts : List StmtTree}

theorem tokens_newline : tokens "\n" = [] := by decide

/-! ## Expressions -/

def IsWord (w : String) : Prop := isName w = true ∧ isIdentifier w = true

/-- **The text of an expression shows a tree.** A `!` in front of the text stays a token by itself. -/
structure Shows (level : Nat) (e : Expr) (t : ExprTree) : Prop where
  reads : Reads level (tokens e.text) t
  bang : tokens ("!" ++ e.text) = .sign "!" :: tokens e.text

theorem tokens_parens (s : String) : tokens ("(" ++ s ++ ")") = inParens (tokens s) := by
  simp (disch := decide) only [tokens_append_of_starts, tokens_append_of_ends]
  rfl

theorem tokens_binary (op : Operator) (s t : String) :
    tokens (s ++ " " ++ op.symbol ++ " " ++ t) = tokens s ++ op.token :: tokens t := by
  have hsplit : s ++ " " ++ op.symbol ++ " " ++ t = s ++ (" " ++ op.symbol ++ " " ++ t) := by
    simp only [String.append_assoc]
  rw [hsplit]
  cases op <;>
    (rw [tokens_append_of_starts s (by simp [Operator.symbol]; decide),
      tokens_append_of_ends t (by decide)]
     rfl)

theorem tokens_bang {c : Char} (h : s.toList.head? = some c) (hc : c ≠ '=') :
    tokens ("!" ++ s) = .sign "!" :: tokens s := by
  have htokens : tokens "!" = [.sign "!"] := by decide
  rw [tokens_append fun x hx y hy => ?_, htokens]
  · rfl
  · obtain rfl : '!' = x := Option.some.inj hx
    rw [h] at hy
    cases hy
    have hname : isNameChar '!' = false := by decide
    simp [joins, pairSigns, hname, hc]

theorem ne_equals_of_isNameChar {c : Char} (h : isNameChar c = true) : c ≠ '=' := by
  rintro rfl
  revert h
  decide

namespace Shows

variable {level : Nat} {e : Expr} {t : ExprTree}

theorem of_name {w : String} (hw : IsWord w) (htext : e.text = w) : Shows 8 e (.name w) where
  reads := by
    rw [htext, tokens_of_isName hw.1]
    exact .name hw.2
  bang := by
    obtain ⟨hname, -⟩ := hw
    rw [htext]
    cases hcs : w.toList with
    | nil =>
      unfold isName at hname
      rw [hcs] at hname
      cases hname
    | cons c rest =>
      exact tokens_bang (c := c) (by rw [hcs]; rfl)
        (ne_equals_of_isNameChar (isNameChar_of_isName hname (by rw [hcs]; exact mem_cons_self)))

theorem truth (b : Bool) : Shows 8 (.atom (if b then "true" else "false")) (.truth b) where
  reads := by
    have htokens : tokens (if b then "true" else "false")
        = [.word (if b then "true" else "false")] := by cases b <;> decide
    show Reads 8 (tokens (if b then "true" else "false")) _
    rw [htokens]
    exact .truth b
  bang := by cases b <;> decide

theorem group (h : Shows level e t) : Shows 8 (.group e) t where
  reads := by
    show Reads 8 (tokens ("(" ++ e.text ++ ")")) t
    rw [tokens_parens]
    exact h.reads.group
  bang := by
    refine tokens_bang (c := '(') ?_ (by decide)
    show ("(" ++ e.text ++ ")").toList.head? = some '('
    rw [String.append_assoc, toList_append]
    rfl

theorem binary {op : Operator} {k k' : Nat} {l r : Expr} {tl tr : ExprTree} (hl : Shows k l tl)
    (hr : Shows k' r tr) (hk : op.level ≤ k) (hk' : op.level < k') :
    Shows op.level (.binary op l r) (.binary op tl tr) where
  reads := by
    rw [Expr.text, tokens_binary]
    exact hl.reads.binary hr.reads hk hk'
  bang := by
    have hsplit : "!" ++ (Expr.binary op l r).text = "!" ++ l.text ++ " " ++ op.symbol ++ " " ++ r.text := by
      simp only [Expr.text, String.append_assoc]
    rw [hsplit, tokens_binary, hl.bang, Expr.text, tokens_binary]
    rfl

theorem negate (h : Shows level e t) (hlevel : e.order = .atomic → 7 ≤ level) : Shows 7 (.negate e) (.not t) where
  reads := by
    rw [Expr.text]
    split
    · next horder =>
      rw [h.bang]
      exact h.reads.not (hlevel horder)
    · have hsplit : "!(" ++ e.text ++ ")" = "!" ++ ("(" ++ e.text ++ ")") := by
        rw [← String.append_assoc, ← String.append_assoc]
        rfl
      have hbang : tokens ("!" ++ ("(" ++ e.text ++ ")")) = .sign "!" :: tokens ("(" ++ e.text ++ ")") := h.group.bang
      rw [hsplit, hbang]
      exact h.group.reads.not (by decide)
  bang := by
    refine tokens_bang (c := '!') ?_ (by decide)
    rw [Expr.text]
    split
    · rw [toList_append]
      rfl
    · rw [String.append_assoc, toList_append]
      rfl

end Shows

/-! ## Numbers -/

theorem isNegative_int (k : Int) : (int k).isNegative = decide (k < 0) := by
  simp [isNegative, lt, dyadic?, dyadicLt, twoPow]

theorem intText_eq (k : Int) : intText k = (if k < 0 then "-" else "") ++ natText k.natAbs := by
  unfold intText natText
  split
  · rw [← toList_inj]
    simp
  · rw [← toList_inj]
    simp

theorem head?_natText (n : Nat) : ∃ c, (natText n).toList.head? = some c ∧ c.isDigit = true := by
  unfold natText
  rw [toList_ofList]
  obtain ⟨c, cs, hcs⟩ := exists_cons_of_ne_nil (Nat.toDigits_ne_nil (n := n) (b := 10))
  refine ⟨c, by rw [hcs]; rfl, ?_⟩
  exact Nat.isDigit_of_mem_toDigits (b := 10) (n := n) (by decide) (by decide) (by rw [hcs]; exact mem_cons_self)

theorem Shows.nat {e : Expr} {n : Nat} (h : e.text = natText n) : Shows 8 e (.number n) where
  reads := by
    rw [h, tokens_natText]
    exact .number n
  bang := by
    obtain ⟨c, hhead, hc⟩ := head?_natText n
    rw [h]
    exact tokens_bang hhead (ne_equals_of_isNameChar (isNameChar_of_isDigit hc).1)

theorem Shows.int (k : Int) : Shows (if k < 0 then 7 else 8) (numberCode (.int k)) (ExprTree.ofInt k) := by
  have htext : (numberCode (.int k)).text = intText k := rfl
  unfold ExprTree.ofInt
  rw [intText_eq] at htext
  split at htext
  · next hk =>
    rw [if_pos hk, if_pos hk]
    have htokens : tokens (numberCode (.int k)).text = [.sign "-", .number k.natAbs] := by
      rw [htext, tokens_append_of_ends _ (by decide), tokens_natText]
      rfl
    refine ⟨?_, ?_⟩
    · rw [htokens]
      exact (Reads.number _).minus (by decide)
    · refine tokens_bang (c := '-') ?_ (by decide)
      rw [htext, toList_append]
      rfl
  · next hk =>
    rw [if_neg hk, if_neg hk]
    exact .nat (htext.trans (empty_append))

/-! ## Statements -/

/-- **A text shows statements** if its tokens read as them. What comes after the text is read by
itself. -/
structure ShowsText (s : String) (ts : List StmtTree) : Prop where
  ends : s.toList.getLast?.all isApart = true
  reads : ReadsStmts (tokens s) ts

theorem ends_append {t : String} (hs : s.toList.getLast?.all isApart = true)
    (ht : t.toList.getLast?.all isApart = true) : (s ++ t).toList.getLast?.all isApart = true := by
  rw [toList_append, getLast?_append]
  cases hlast : t.toList.getLast? with
  | none => exact hs
  | some c =>
    rw [hlast] at ht
    exact ht

theorem ShowsText.append {s' : String} {ts' : List StmtTree} (h : ShowsText s ts)
    (h' : ShowsText s' ts') : ShowsText (s ++ s') (ts ++ ts') where
  ends := ends_append h.ends h'.ends
  reads := by
    rw [tokens_append_of_ends _ h.ends]
    exact h.reads.append h'.reads

def ShowsStmts (margin : String) (ss : List Stmt) (ts : List StmtTree) : Prop :=
  ShowsText (stmtsText margin ss) ts

theorem stmtsText_append (margin : String) (ss ss' : List Stmt) :
    stmtsText margin (ss ++ ss') = stmtsText margin ss ++ stmtsText margin ss' := by
  induction ss with
  | nil => exact empty_append.symm
  | cons s ss ih => rw [cons_append, stmtsText, stmtsText, ih, String.append_assoc]

theorem tokens_braced (hm : ∀ c ∈ margin.toList, c.isWhitespace = true) (s : String) :
    tokens (braced margin s) = inBraces (tokens s) := by
  unfold braced
  simp (disch := decide) only [tokens_append_of_starts, tokens_append_of_ends]
  rw [tokens_prefixLines s hm]
  rfl

namespace ShowsStmts

variable {level : Nat} {e : Expr} {t : ExprTree} {ss : List Stmt}

theorem nil : ShowsStmts margin [] [] := ⟨rfl, .nil⟩

theorem append {ss' : List Stmt} {ts' : List StmtTree} (h : ShowsStmts margin ss ts)
    (h' : ShowsStmts margin ss' ts') : ShowsStmts margin (ss ++ ss') (ts ++ ts') := by
  unfold ShowsStmts
  rw [stmtsText_append]
  exact ShowsText.append h h'

theorem of_line {s : Stmt} {us : List Token} {tree : StmtTree} (body last : String)
    (htext : s.text margin = body ++ last) (hlast : last.toList.getLast? = some '\n')
    (htokens : tokens (body ++ last) = us) (h : ReadsStmt us tree) : ShowsStmts margin [s] [tree] := by
  have hline : stmtsText margin [s] = body ++ last := by
    rw [stmtsText, stmtsText, append_empty, htext]
  refine ⟨?_, ?_⟩
  · rw [hline, toList_append, getLast?_append, hlast]
    rfl
  · rw [hline, htokens]
    exact .of_stmt h

theorem assign (hx : IsWord x) (h : Shows level e t) : ShowsStmts margin [.assign x e] [.assign x t] := by
  refine of_line _ ";\n" rfl rfl ?_ (.assign hx.2 h.reads)
  simp (disch := decide) only [tokens_between, tokens_append_of_starts]
  rw [tokens_of_isName hx.1, List.append_assoc, List.append_assoc]
  rfl

theorem expression (h : Shows level e t) : ShowsStmts margin [.expression e] [.expression t] := by
  refine of_line _ ";\n" rfl rfl ?_ (.expression h.reads)
  rw [tokens_append_of_starts _ (by decide)]
  rfl

theorem start (hx : IsWord x) : ShowsStmts margin [.start x] [.start x] := by
  refine of_line _ ";\n" rfl rfl ?_ (.start hx.2)
  simp (disch := decide) only [tokens_append_of_starts, tokens_append_of_ends]
  rw [tokens_of_isName hx.1]
  rfl

theorem stop (hx : IsWord x) : ShowsStmts margin [.stop x] [.stop x] := by
  refine of_line _ ";\n" rfl rfl ?_ (.stop hx.2)
  simp (disch := decide) only [tokens_append_of_starts, tokens_append_of_ends]
  rw [tokens_of_isName hx.1]
  rfl

theorem repeatTimes (hm : ∀ c ∈ margin.toList, c.isWhitespace = true) (h : Shows level e t)
    (hbody : ShowsStmts margin ss ts) : ShowsStmts margin [.repeatTimes e ss] [.repeatLoop t ts] := by
  refine of_line _ "\n" rfl rfl ?_ (.repeatLoop h.reads hbody.reads)
  simp (disch := decide) only [tokens_between, tokens_append_of_starts, tokens_append_of_ends]
  rw [tokens_braced hm]
  have hopen : tokens "repeat(" = [.word "repeat", .sign "("] := by decide
  have hclose : tokens ") " = [.sign ")"] := by decide
  simp [hopen, hclose, tokens_newline, inParens]

theorem forever (hm : ∀ c ∈ margin.toList, c.isWhitespace = true) (hbody : ShowsStmts margin ss ts) :
    ShowsStmts margin [.forever ss] [.whileLoop (.truth true) ts] := by
  refine of_line _ "\n" rfl rfl ?_ (.whileLoop (Reads.truth true) hbody.reads)
  simp (disch := decide) only [tokens_append_of_starts, tokens_append_of_ends]
  rw [tokens_braced hm]
  have hwhile : tokens "while(true) " = [.word "while", .sign "(", .word "true", .sign ")"] := by decide
  simp [hwhile, tokens_newline, inParens]

theorem doUntil (hm : ∀ c ∈ margin.toList, c.isWhitespace = true)
    (hbody : ShowsStmts margin ss ts) (h : Shows level e t) :
    ShowsStmts margin [.doUntil ss e] [.doWhile ts (.not t)] := by
  refine of_line _ "));\n" rfl rfl ?_ (.doWhile hbody.reads (h.group.reads.not (by decide)))
  simp (disch := decide) only [tokens_between, tokens_append_of_starts, tokens_append_of_ends]
  rw [tokens_braced hm]
  have hdo : tokens "do " = [.word "do"] := by decide
  have hwhile : tokens " while (!(" = [.word "while", .sign "(", .sign "!", .sign "("] := by decide
  have hclose : tokens "));\n" = [.sign ")", .sign ")", .sign ";"] := by decide
  rw [show tokens (Expr.group e).text = inParens (tokens e.text) from tokens_parens e.text]
  simp [hdo, hwhile, hclose, inParens]

theorem readsArguments {es : List Expr} {trees : List ExprTree}
    (h : List.Forall₂ (fun e t => ∃ level, Shows level e t) es trees) (hne : es ≠ []) :
    ReadsArguments (tokens (", ".intercalate (es.map Expr.text)) ++ [.sign ")"]) trees := by
  induction h with
  | nil => exact absurd rfl hne
  | @cons e t es trees hshow hmore ih =>
    obtain ⟨level, hshow⟩ := hshow
    cases hmore with
    | nil =>
      rw [map_singleton, String.intercalate_singleton]
      exact .last hshow.reads
    | cons h hmore =>
      rw [map_cons, map_cons, String.intercalate_cons_cons, tokens_between _ _ (by decide) (by decide)]
      have hrest := ReadsArguments.cons hshow.reads (ih (cons_ne_nil _ _))
      rw [List.append_assoc]
      exact hrest

theorem call {f : String} {es : List Expr} {trees : List ExprTree} (hname : isName f = true)
    (hf : f ∉ statementWords) (h : List.Forall₂ (fun e t => ∃ level, Shows level e t) es trees)
    (hne : es ≠ []) : ShowsStmts margin [.call f es] [.call f trees] := by
  refine of_line _ ");\n" rfl rfl ?_ (.call hf (readsArguments h hne))
  simp (disch := decide) only [tokens_between, tokens_append_of_starts]
  rw [tokens_of_isName hname]
  have hopen : tokens "(" = [.sign "("] := by decide
  have hclose : tokens ");\n" = [.sign ")", .sign ";"] := by decide
  simp [hopen, hclose]

end ShowsStmts

/-! ## Branches -/

theorem tokens_between_braced (hm : ∀ c ∈ margin.toList, c.isWhitespace = true) (s body t : String) :
    tokens (s ++ braced margin body ++ t) = tokens s ++ (inBraces (tokens body) ++ tokens t) := by
  rw [tokens_between s t, tokens_braced hm]
  · rw [braced, String.append_assoc, toList_append]
    rfl
  · rw [braced, toList_append, getLast?_append]
    rfl

def ShowsArm (margin : String) (arm : Expr × List Stmt) (tree : ExprTree × List StmtTree) : Prop :=
  (∃ level, Shows level arm.1 tree.1) ∧ ShowsStmts margin arm.2 tree.2

theorem tokens_armsText_cons (hm : ∀ c ∈ margin.toList, c.isWhitespace = true) (word : String)
    (arm : Expr × List Stmt) (rest : List (Expr × List Stmt)) :
    tokens (armsText margin word (arm :: rest)) = tokens word
      ++ (inParens (tokens arm.1.text) ++ (inBraces (tokens (stmtsText margin arm.2))
        ++ tokens (armsText margin " else if" rest))) := by
  obtain ⟨condition, body⟩ := arm
  rw [armsText, tokens_between_braced hm]
  simp (disch := decide) only [tokens_between, tokens_append_of_starts]
  have hopen : tokens " (" = [.sign "("] := by decide
  have hclose : tokens ") " = [.sign ")"] := by decide
  simp [hopen, hclose, inParens]

theorem readsBranches_armsText (hm : ∀ c ∈ margin.toList, c.isWhitespace = true)
    {arms : List (Expr × List Stmt)} {trees : List (ExprTree × List StmtTree)}
    (h : List.Forall₂ (ShowsArm margin) arms trees) (hne : arms ≠ []) :
    ∃ us, (∀ word, tokens (armsText margin word arms) = tokens word ++ us)
      ∧ ReadsBranches us trees none
      ∧ ∀ {ws ss}, ReadsStmts ws ss → ReadsBranches (us ++ .word "else" :: inBraces ws) trees (some ss) := by
  induction h with
  | nil => exact absurd rfl hne
  | @cons arm tree arms trees harm hmore ih =>
    obtain ⟨⟨level, hcondition⟩, hbody⟩ := harm
    cases hmore with
    | nil =>
      refine ⟨inParens (tokens arm.1.text) ++ inBraces (tokens (stmtsText margin arm.2)),
        fun word => ?_, .last hcondition.reads hbody.reads, fun hws => ?_⟩
      · rw [tokens_armsText_cons hm]
        show _ ++ (_ ++ (_ ++ [])) = _
        rw [append_nil]
      · exact .otherwise hcondition.reads hbody.reads hws
    | cons hnext hmore =>
      obtain ⟨us, htokens, hlast, hotherwise⟩ := ih (cons_ne_nil _ _)
      refine ⟨inParens (tokens arm.1.text) ++ inBraces (tokens (stmtsText margin arm.2))
        ++ .word "else" :: .word "if" :: us, fun word => ?_,
        .cons hcondition.reads hbody.reads hlast, fun hws => ?_⟩
      · rw [tokens_armsText_cons hm, htokens, List.append_assoc]
        rfl
      · have hall := ReadsBranches.cons hcondition.reads hbody.reads (hotherwise hws)
        rw [List.append_assoc]
        exact hall

namespace ShowsStmts

variable {arms : List (Expr × List Stmt)} {trees : List (ExprTree × List StmtTree)}

theorem branches (hm : ∀ c ∈ margin.toList, c.isWhitespace = true)
    (h : List.Forall₂ (ShowsArm margin) arms trees) (hne : arms ≠ []) :
    ShowsStmts margin [.branches arms none] [.branches trees none] := by
  obtain ⟨us, htokens, hlast, -⟩ := readsBranches_armsText hm h hne
  refine of_line _ "\n" rfl rfl ?_ (.branches hlast)
  rw [tokens_append_of_starts _ (by decide), htokens]
  have hif : tokens "if" = [.word "if"] := by decide
  simp [hif, tokens_newline]

theorem branchesElse (hm : ∀ c ∈ margin.toList, c.isWhitespace = true)
    (h : List.Forall₂ (ShowsArm margin) arms trees) (hne : arms ≠ []) {ss : List Stmt}
    (helse : ShowsStmts margin ss ts) :
    ShowsStmts margin [.branches arms (some ss)] [.branches trees (some ts)] := by
  obtain ⟨us, htokens, -, hotherwise⟩ := readsBranches_armsText hm h hne
  refine of_line _ "\n" rfl rfl ?_ (.branches (hotherwise helse.reads))
  rw [tokens_between_braced hm, tokens_append_of_starts _ (by decide), htokens]
  have hif : tokens "if" = [.word "if"] := by decide
  have hbetween : tokens " else " = [.word "else"] := by decide
  simp [hif, hbetween, tokens_newline]

end ShowsStmts

/-! ## Programs -/

theorem getLast?_margin {margin : List Char} : ∀ {lines : List (List Char)}, [] ∉ lines →
    (lines.flatMap fun line => margin ++ line).getLast? = lines.flatten.getLast?
  | [], _ => rfl
  | line :: rest, h => by
    have hline : line ≠ [] := fun hnil => h (hnil ▸ mem_cons_self)
    rw [flatMap_cons, flatten_cons, getLast?_append, getLast?_append,
      getLast?_append, getLast?_margin fun hmem => h (mem_cons_of_mem _ hmem),
      getLast?_eq_some_getLast hline]
    rfl

theorem ShowsText.prefixLines (h : ShowsText s ts) (hm : ∀ c ∈ margin.toList, c.isWhitespace = true) :
    ShowsText (Text.prefixLines s margin) ts where
  ends := by
    unfold Text.prefixLines
    rw [toList_ofList, getLast?_margin (isChain_splitLines s.toList).1, Text.flatten_splitLines]
    exact h.ends
  reads := by
    rw [tokens_prefixLines s hm]
    exact h.reads

theorem ShowsText.declarations (hm : ∀ c ∈ margin.toList, c.isWhitespace = true) :
    ∀ xs : List String, (∀ x ∈ xs, IsWord x) →
      ShowsText (String.join (xs.map fun x => margin ++ "int " ++ x ++ ";\n")) (xs.map .declare)
  | [], _ => ⟨rfl, .nil⟩
  | x :: xs, h => by
    rw [map_cons, join_cons]
    show ShowsText _ ([.declare x] ++ xs.map .declare)
    refine .append ⟨?_, ?_⟩ (declarations hm xs fun x hx => h x (mem_cons_of_mem _ hx))
    · rw [toList_append, getLast?_append]
      rfl
    · have hx := h x mem_cons_self
      have hmargin : margin.toList.getLast?.all isApart = true := by
        cases hlast : margin.toList.getLast? with
        | none => rfl
        | some c => exact isApart_of_isWhitespace (hm c (mem_of_getLast? hlast))
      have htokens : tokens margin = [] := by
        unfold tokens
        rw [lexemes_of_blank hm]
        rfl
      rw [tokens_append_of_starts _ (by decide), String.append_assoc, tokens_append_of_ends _ hmargin,
        tokens_append_of_ends _ (by decide), htokens, tokens_of_isName hx.1]
      exact .of_stmt (.declare hx.2)

/-- **A text shows a part of a program** if its tokens, with more behind them, read as that part with
more behind it. -/
structure ShowsItems (s : String) (is : List ItemTree) : Prop where
  ends : s.toList.getLast?.all isApart = true
  reads : ∀ {vs is'}, ReadsItems vs is' → ReadsItems (tokens s ++ vs) (is ++ is')

namespace ShowsItems

variable {is : List ItemTree}

theorem append {s' : String} {is' : List ItemTree} (h : ShowsItems s is) (h' : ShowsItems s' is') :
    ShowsItems (s ++ s') (is ++ is') where
  ends := ends_append h.ends h'.ends
  reads hrest := by
    rw [tokens_append_of_ends _ h.ends, List.append_assoc, List.append_assoc]
    exact h.reads (h'.reads hrest)

theorem blank (h : tokens s = []) (hends : s.toList.getLast?.all isApart = true) : ShowsItems s [] := by
  refine ⟨hends, fun hrest => ?_⟩
  rw [h]
  exact hrest

theorem of_text (h : ShowsText s ts) : ShowsItems s (ts.map .statement) :=
  ⟨h.ends, fun hrest => .stmts h.reads hrest⟩

theorem task {w : String} (hw : IsWord w) (h : ShowsText s ts) :
    ShowsItems ("task " ++ w ++ "()\n\x7b\n" ++ s ++ "\x7d\n") [.task w ts] where
  ends := by
    rw [toList_append, getLast?_append]
    rfl
  reads hrest := by
    have htokens : tokens ("task " ++ w ++ "()\n\x7b\n" ++ s ++ "\x7d\n")
        = .word "task" :: .word w :: (inParens [] ++ inBraces (tokens s)) := by
      simp (disch := decide) only [tokens_between, tokens_append_of_starts, tokens_append_of_ends]
      rw [tokens_of_isName hw.1]
      have htask : tokens "task " = [.word "task"] := by decide
      have hopen : tokens "()\n\x7b\n" = [.sign "(", .sign ")", .sign "\x7b"] := by decide
      have hclose : tokens "\x7d\n" = [.sign "\x7d"] := by decide
      simp [htask, hopen, hclose, inParens, inBraces]
    rw [htokens, cons_append, cons_append, List.append_assoc]
    exact .task hw.2 h.reads hrest

theorem parse_eq (h : ShowsItems s is) : parse s = some is := by
  have hreads := h.reads ReadsItems.nil
  rw [append_nil, append_nil] at hreads
  exact parse_eq_some hreads

end ShowsItems

end NqcBlocks.Nqc
