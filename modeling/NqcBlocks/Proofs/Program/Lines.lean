import NqcBlocks.Proofs.Program.Tidiness

/-!
# Lines of code

A **line** says what is written on it, how far it is set in, and which block's code starts with it, if one
does; the remarks of that block stand above the line, set in as far. The remarks are those of the block and
of all values plugged into it, since values have no line of their own: `BlockTree.voices` lists these blocks,
each before what is plugged into it. Whether a value is enabled makes no difference here.
-/

namespace NqcBlocks

open Nqc Text List Option String Json BlockTree

variable {l : Line}

/-! ## Remarks -/

theorem stmtsText_withComments {margin : String} (remarks : String) (ss : List Stmt) :
    stmtsText margin (withComments remarks ss) = remarks ++ stmtsText margin ss := by
  unfold withComments
  split
  · next h => rw [String.isEmpty_iff.mp h, empty_append]
  · rw [stmtsText, Stmt.text]

mutual
/-- **The blocks whose remarks are written with a block**: the block, and all values plugged into it, each
before what is plugged into it. -/
def BlockTree.voices : BlockTree → List Node
  | .mk n _ operands _ => n :: operandVoices operands
def operandVoices : Operands → List Node
  | [] => []
  | (_, none) :: rest => operandVoices rest
  | (_, some t) :: rest => t.voices ++ operandVoices rest
end

def Node.remarkLines (n : Node) : List String := ((n.comment.bind Json.text?).map remarkRows).getD []

def BlockTree.remarkLines (t : BlockTree) : List String := t.voices.flatMap Node.remarkLines

theorem Node.toList_remark (n : Node) : n.remark.toList = unrows (n.remarkLines.map String.toList) := by
  unfold Node.remark Node.remarkLines
  cases n.comment with
  | none => rfl
  | some j =>
    cases j with
    | text s =>
      rw [bind_some, bind_some, truthy?, isTruthy]
      cases hs : s.isEmpty with
      | false => exact toList_commentLines s
      | true =>
        have hrows : remarkRows s = [] := if_pos hs
        rw [text?, map_some, hrows]
        rfl
    | null => rfl
    | bool b => cases b <;> rfl
    | number a | list _ | object _ =>
      rw [bind_some, truthy?]
      split
      · next h => split at h <;> cases h
      · rfl

theorem Node.exists_of_mem_remarkLines {n : Node} {row : String} (h : row ∈ n.remarkLines) :
    ∃ s, n.comment = some (.text s) ∧ row ∈ remarkRows s := by
  unfold Node.remarkLines at h
  cases hs : n.comment.bind text? with
  | none =>
    rw [hs] at h
    cases h
  | some s =>
    rw [hs] at h
    obtain ⟨j, hj, htext⟩ := Option.bind_eq_some_iff.mp hs
    cases j <;> cases htext
    exact ⟨s, hj, h⟩

mutual
theorem BlockTree.toList_remarks : ∀ t : BlockTree, t.remarks.toList = unrows (t.remarkLines.map String.toList)
  | .mk n attached operands bodies => by
    rw [remarks, toList_append, n.toList_remark, toList_operandRemarks operands,
      remarkLines, voices, flatMap_cons, map_append, unrows_append]
theorem toList_operandRemarks : ∀ operands : Operands, (operandRemarks operands).toList
      = unrows (((operandVoices operands).flatMap Node.remarkLines).map String.toList)
  | [] => rfl
  | (_, none) :: rest => by
    rw [operandRemarks, operandVoices, toList_operandRemarks rest]
  | (_, some t) :: rest => by
    rw [operandRemarks, operandVoices, toList_append, t.toList_remarks,
      toList_operandRemarks rest, flatMap_append, map_append, unrows_append]
    rfl
end

/-! ## Lines -/

/-- **A line of code.** -/
structure Line where
  owner : Option BlockTree := none
  depth : Nat := 0
  code : String

def setIn (margin : List Char) : Nat → List Char → List Char
  | 0, row => row
  | depth + 1, row => margin ++ weave margin (setIn margin depth row)

namespace Line

def inner (l : Line) : Line := { l with depth := l.depth + 1 }

def remarks (l : Line) : List String := (l.owner.map BlockTree.remarkLines).getD []

def rows (margin : String) (l : Line) : List (List Char) :=
  (l.remarks ++ [l.code]).map fun row => setIn margin.toList l.depth row.toList

theorem exists_of_mem_remarks {row : String} (h : row ∈ l.remarks) :
    ∃ t, l.owner = some t ∧ ∃ n ∈ t.voices, ∃ s, n.comment = some (.text s) ∧ row ∈ remarkRows s := by
  unfold remarks at h
  cases howner : l.owner with
  | none =>
    rw [howner] at h
    cases h
  | some t =>
    rw [howner] at h
    obtain ⟨n, hn, hrow⟩ := mem_flatMap.mp h
    exact ⟨t, rfl, n, hn, n.exists_of_mem_remarkLines hrow⟩

theorem isRemark_of_mem_remarks {row : String} (h : row ∈ l.remarks) : IsRemark row.toList := by
  obtain ⟨-, -, -, -, s, -, hrow⟩ := exists_of_mem_remarks h
  exact isRemark_of_mem_remarkRows hrow

end Line

def rowsOf (margin : String) (ls : List Line) : List (List Char) := ls.flatMap (Line.rows margin)

def startLines (t : BlockTree) : List Line → List Line
  | [] => []
  | l :: rest => { l with owner := some t } :: rest

def loopLines (head : String) (body : List Line) (tail : String) : List Line :=
  { code := head ++ "\x7b" } :: (body.map Line.inner ++ [{ code := "\x7d" ++ tail }])

/-! ## Indentation -/

def indentation (margin : String) : Nat → String
  | 0 => ""
  | depth + 1 => margin ++ indentation margin depth

def Unbroken (s : String) : Prop := ∀ c ∈ s.toList, isLineBreak c = false

instance (s : String) : Decidable (Unbroken s) := inferInstanceAs (Decidable (∀ c ∈ s.toList, _))

section Indentation

variable {margin s s' : String}

theorem Unbroken.append (h : Unbroken s) (h' : Unbroken s') : Unbroken (s ++ s') := by
  intro c hc
  rw [toList_append] at hc
  exact (mem_append.mp hc).elim (h c) (h' c)

theorem unbroken_margin (hm : ∀ c ∈ margin.toList, IsMargin c) : Unbroken margin :=
  fun c hc => isLineBreak_of_isMargin (hm c hc)

theorem isMargin_indentation (hm : ∀ c ∈ margin.toList, IsMargin c) :
    ∀ depth, ∀ c ∈ (indentation margin depth).toList, IsMargin c
  | 0, c, hc => by cases hc
  | depth + 1, c, hc => by
    rw [indentation, toList_append] at hc
    exact (mem_append.mp hc).elim (hm c) (isMargin_indentation hm depth c)

theorem setIn_eq (hm : ∀ c ∈ margin.toList, IsMargin c) {row : String} (h : Unbroken row) :
    ∀ depth, setIn margin.toList depth row.toList = (indentation margin depth ++ row).toList
  | 0 => by rw [setIn, indentation, empty_append]
  | depth + 1 => by
    have hplain : Unbroken (indentation margin depth ++ row) :=
      (unbroken_margin (isMargin_indentation hm depth)).append h
    rw [setIn, setIn_eq hm h depth, weave_of_plain hplain, indentation, String.append_assoc]
    exact toList_append.symm

end Indentation

/-! ## Texts that are made of lines -/

/-- **What can be written on a line**: text without a break that is no comment and does not start with a
blank. -/
structure IsPlain (code : String) : Prop where
  unbroken : Unbroken code
  isComment : isComment code = false
  starts : code ≠ "" → Starts code

def isEnd (c : Char) : Bool := c == ';' || c == '\x7b' || c == '\x7d'

/-- **A line of statements** ends with a semicolon or a brace. -/
structure IsCode (code : String) : Prop extends IsPlain code where
  ends : code.toList.getLast?.any isEnd = true

theorem IsCode.ne_empty {code : String} (h : IsCode code) : code ≠ "" := by
  rintro rfl
  cases h.ends

def closesFirst (code : String) : Nat := if code.toList.head? = some '\x7d' then 1 else 0

/-- **Lines are nested**, with so many braces open before and after them: each line that is not empty is set in once
for each brace that is open before it, apart from one that it starts by closing. -/
inductive Nested : Nat → List Line → Nat → Prop
  | nil {d : Nat} : Nested d [] d
  | cons {l : Line} {ls : List Line} {d d' d'' : Nat} :
    (l.code = "" ∧ l.depth = 0 ∨ l.code ≠ "" ∧ l.depth + closesFirst l.code = d) →
      bracesAfter d l.code.toList = some d' → Nested d' ls d'' → Nested d (l :: ls) d''

/-- **A text is written in some lines**, which are nested and on each of which there is what can be. -/
structure Written (P : String → Prop) (margin s : String) (ls : List Line) (before after : Nat := 0) :
    Prop where
  text : s.toList = unrows (rowsOf margin ls)
  codes : ∀ l ∈ ls, P l.code
  nested : Nested before ls after

section Lines

variable {s s' e : String}

theorem Nested.append {ls ls' : List Line} {d d' d'' : Nat} (h : Nested d ls d') (h' : Nested d' ls' d'') :
    Nested d (ls ++ ls') d'' := by
  induction h with
  | nil => exact h'
  | cons hat hbraces _ ih => exact .cons hat hbraces (ih h')

theorem Nested.inner {ls : List Line} {d d' : Nat} (h : Nested d ls d') (hne : ∀ l ∈ ls, l.code ≠ "") :
    Nested (d + 1) (ls.map Line.inner) (d' + 1) := by
  induction h with
  | nil => exact .nil
  | @cons l ls d d₁ d₂ hat hbraces _ ih =>
    obtain ⟨hl, hls⟩ := forall_mem_cons.mp hne
    refine .cons (.inr ⟨hl, ?_⟩) (bracesAfter_succ hbraces) (ih hls)
    rw [← (hat.resolve_left fun h => hl h.1).2]
    exact Nat.add_right_comm _ _ _

theorem isPlain_append (h : Unbroken s) (hs : s.toList.head?.any (fun c => !isBlank c && c != '/') = true)
    (h' : Unbroken s') : IsPlain (s ++ s') := by
  obtain ⟨c, rest, hcs⟩ : ∃ c rest, s.toList = c :: rest := by
    cases hcs : s.toList with
    | nil =>
      rw [hcs] at hs
      cases hs
    | cons c rest => exact ⟨c, rest, rfl⟩
  rw [hcs, head?_cons, any_some, Bool.and_eq_true, Bool.not_eq_true'] at hs
  refine ⟨h.append h', isComment_of_head ?_ s', fun _ => Starts.append ?_ s'⟩
  · rw [hcs, dropWhile_cons_of_neg (by simp [hs.1])]
    exact hs.2
  · unfold Starts
    rw [hcs, head?_cons, any_some, hs.1]
    rfl

theorem IsPlain.isCode (h : IsPlain (s ++ e)) (he : e.toList.getLast?.any isEnd = true) : IsCode (s ++ e) where
  toIsPlain := h
  ends := by
    rw [toList_append, getLast?_append]
    cases hlast : e.toList.getLast? with
    | none =>
      rw [hlast] at he
      cases he
    | some c =>
      rw [hlast] at he
      exact he

theorem closesFirst_of_inline (h : Inline s) (s' : String) (hs : s.toList ≠ []) : closesFirst (s ++ s') = 0 := by
  obtain ⟨c, rest, hcs⟩ := exists_cons_of_ne_nil hs
  refine if_neg fun hhead => ?_
  rw [toList_append, hcs, cons_append, head?_cons, Option.some.injEq] at hhead
  have hc : isInline c = true := h c (hcs ▸ mem_cons_self)
  rw [hhead] at hc
  cases hc

theorem bracesAfter_of_inline (h : Inline s) (s' : String) (d : Nat) :
    bracesAfter d (s ++ s').toList = bracesAfter d s'.toList := by
  rw [toList_append, bracesAfter_append, bracesAfter_of_isInline h]
  rfl

end Lines

section Written

variable {P : String → Prop} {margin s s' : String} {ls ls' : List Line} {d d' d'' : Nat}

@[simp] theorem rowsOf_nil : rowsOf margin [] = [] := rfl

@[simp] theorem rowsOf_cons (l : Line) (ls : List Line) :
    rowsOf margin (l :: ls) = l.rows margin ++ rowsOf margin ls := flatMap_cons

@[simp] theorem rowsOf_append (ls ls' : List Line) :
    rowsOf margin (ls ++ ls') = rowsOf margin ls ++ rowsOf margin ls' := flatMap_append

theorem rowsOf_inner (ls : List Line) : rowsOf margin (ls.map Line.inner)
    = (rowsOf margin ls).map fun row => margin.toList ++ weave margin.toList row := by
  unfold rowsOf
  rw [flatMap_map, map_flatMap]
  refine flatMap_congr fun l _ => ?_
  show (l.remarks ++ [l.code]).map _ = ((l.remarks ++ [l.code]).map _).map _
  rw [List.map_map]
  rfl

theorem isRemark_setIn (hm : ∀ c ∈ margin.toList, IsMargin c) {row : List Char} (h : IsRemark row) :
    ∀ depth, IsRemark (setIn margin.toList depth row)
  | 0 => h
  | depth + 1 => (isRemark_setIn hm h depth).margin hm

theorem Line.mem_rows (hm : ∀ c ∈ margin.toList, IsMargin c) (h : Unbroken l.code) {row : List Char}
    (hrow : row ∈ l.rows margin) : IsRemark row ∨ row = (indentation margin l.depth ++ l.code).toList := by
  obtain ⟨text, htext, rfl⟩ := List.mem_map.mp hrow
  rcases mem_append.mp htext with htext | htext
  · exact .inl (isRemark_setIn hm (Line.isRemark_of_mem_remarks htext) l.depth)
  · rw [mem_singleton.mp htext]
    exact .inr (setIn_eq hm h l.depth)

theorem Line.notMem_rows (hm : ∀ c ∈ margin.toList, IsMargin c) (h : Unbroken l.code) :
    ∀ row ∈ l.rows margin, '\n' ∉ row := by
  intro row hrow
  rcases l.mem_rows hm h hrow with hremark | rfl
  · exact hremark.notMem
  · exact ne_newline_of_plain ((unbroken_margin (isMargin_indentation hm l.depth)).append h)

namespace Written

theorem plain (h : Written IsCode margin s ls d d') : Written IsPlain margin s ls d d' :=
  ⟨h.text, fun l hl => (h.codes l hl).toIsPlain, h.nested⟩

theorem notMem (hm : ∀ c ∈ margin.toList, IsMargin c) (h : Written IsPlain margin s ls d d') :
    ∀ row ∈ rowsOf margin ls, '\n' ∉ row := by
  intro row hrow
  obtain ⟨l, hl, hrow⟩ := mem_flatMap.mp hrow
  exact l.notMem_rows hm (h.codes l hl).unbroken row hrow

theorem nil : Written P margin "" [] d d := ⟨rfl, by simp, .nil⟩

theorem append (h : Written P margin s ls d d') (h' : Written P margin s' ls' d' d'') :
    Written P margin (s ++ s') (ls ++ ls') d d'' where
  text := by rw [toList_append, h.text, h'.text, rowsOf_append, unrows_append]
  codes := forall_mem_append.mpr ⟨h.codes, h'.codes⟩
  nested := h.nested.append h'.nested

variable {code head tail : String}

theorem line (h : P code) (hat : code ≠ "" → closesFirst code = d)
    (hbraces : bracesAfter d code.toList = some d') : Written P margin (code ++ "\n") [{ code }] d d' where
  text := by
    rw [toList_append, rowsOf_cons, rowsOf_nil, append_nil]
    show _ = unrows [code.toList]
    rw [unrows_cons]
    rfl
  codes := List.forall_mem_singleton.mpr h
  nested := by
    refine .cons ?_ hbraces .nil
    by_cases hne : code = ""
    · exact .inl ⟨hne, rfl⟩
    · exact .inr ⟨hne, (Nat.zero_add _).trans (hat hne)⟩

theorem flat (h : P code) (hinline : Inline code) : Written P margin (code ++ "\n") [{ code }] := by
  refine line h (fun hne => ?_) (bracesAfter_of_isInline hinline 0)
  have hcloses := closesFirst_of_inline hinline "" fun hnil => hne (String.toList_eq_nil_iff.mp hnil)
  rwa [append_empty] at hcloses

theorem opening (h : P (head ++ "\x7b")) (hinline : Inline head) (hne : head.toList ≠ []) :
    Written P margin (head ++ "\x7b" ++ "\n") [{ code := head ++ "\x7b" }] 0 1 :=
  line h (fun _ => closesFirst_of_inline hinline _ hne) (bracesAfter_of_inline hinline _ _)

theorem closing (h : P ("\x7d" ++ tail)) (hinline : Inline tail) :
    Written P margin ("\x7d" ++ tail ++ "\n") [{ code := "\x7d" ++ tail }] 1 := by
  refine line h (fun _ => ?_) ?_
  · rw [closesFirst, toList_append]
    rfl
  · rw [toList_append, bracesAfter_append]
    exact bracesAfter_of_isInline hinline 0

theorem reopening (h : P ("\x7d" ++ head ++ "\x7b")) (hinline : Inline head) :
    Written P margin ("\x7d" ++ head ++ "\x7b" ++ "\n") [{ code := "\x7d" ++ head ++ "\x7b" }] 1 1 := by
  refine line h (fun _ => ?_) ?_
  · rw [closesFirst, toList_append, toList_append]
    rfl
  · rw [String.append_assoc, toList_append, bracesAfter_append]
    exact bracesAfter_of_inline hinline _ _

theorem prefixLines (hm : ∀ c ∈ margin.toList, IsMargin c) (h : Written IsCode margin s ls d d') :
    Written IsCode margin (Text.prefixLines s margin) (ls.map Line.inner) (d + 1) (d' + 1) where
  text := by rw [rowsOf_inner, prefixLines_unrows h.text (h.plain.notMem hm)]
  codes := by
    intro l hl
    obtain ⟨outer, houter, rfl⟩ := List.mem_map.mp hl
    exact h.codes outer houter
  nested := h.nested.inner fun l hl => (h.codes l hl).ne_empty

theorem prefixLines_append (hm : ∀ c ∈ margin.toList, IsMargin c) (h : Written IsCode margin s ls)
    (h' : Written IsCode margin s' ls') (margin' : String) :
    Text.prefixLines (s ++ s') margin' = Text.prefixLines s margin' ++ Text.prefixLines s' margin' := by
  have hboth := h.append h'
  rw [← toList_inj, toList_append, prefixLines_unrows h.text (h.plain.notMem hm),
    prefixLines_unrows h'.text (h'.plain.notMem hm), prefixLines_unrows hboth.text (hboth.plain.notMem hm),
    rowsOf_append, map_append, unrows_append]

theorem braced (hm : ∀ c ∈ margin.toList, IsMargin c)
    (hhead : Written IsCode margin (head ++ "\x7b" ++ "\n") [{ code := head ++ "\x7b" }] d 1)
    (h : Written IsCode margin s ls) (htail : Written IsCode margin ("\x7d" ++ tail) ls' 1) :
    Written IsCode margin (head ++ Nqc.braced margin s ++ tail)
      ({ code := head ++ "\x7b" } :: (ls.map Line.inner ++ ls')) d := by
  have hall := hhead.append ((h.prefixLines hm).append htail)
  have htext : head ++ Nqc.braced margin s ++ tail
      = head ++ "\x7b" ++ "\n" ++ (Text.prefixLines s margin ++ ("\x7d" ++ tail)) := by
    have hbrace : ("\x7b\n" : String) = "\x7b" ++ "\n" := rfl
    rw [Nqc.braced, hbrace]
    simp only [String.append_assoc]
  rw [htext]
  exact hall

theorem loop (hm : ∀ c ∈ margin.toList, IsMargin c)
    (hhead : Written IsCode margin (head ++ "\x7b" ++ "\n") [{ code := head ++ "\x7b" }] d 1)
    (h : Written IsCode margin s ls) (htail : Inline tail) (hend : IsCode ("\x7d" ++ tail)) :
    Written IsCode margin (head ++ Nqc.braced margin s ++ (tail ++ "\n")) (loopLines head ls tail) d := by
  have hlast : Written IsCode margin ("\x7d" ++ tail ++ "\n") [{ code := "\x7d" ++ tail }] 1 := closing hend htail
  rw [String.append_assoc] at hlast
  exact braced hm hhead h hlast

theorem start (t : BlockTree) (h : Written P margin s ({ code } :: ls)) :
    Written P margin (t.remarks ++ s) (startLines t ({ code } :: ls)) where
  text := by
    rw [toList_append, t.toList_remarks, h.text, startLines, rowsOf_cons, rowsOf_cons,
      unrows_append, unrows_append, ← List.append_assoc]
    refine congrArg (· ++ _) ?_
    show _ ++ unrows [code.toList] = unrows ((t.remarkLines ++ [code]).map String.toList)
    rw [map_append, unrows_append]
    rfl
  codes := forall_mem_cons.mpr (forall_mem_cons.mp h.codes)
  nested := by
    cases h.nested with
    | cons hat hbraces hrest => exact .cons hat hbraces hrest

end Written

theorem isCode_close : IsCode ("\x7d" ++ "") :=
  ⟨⟨by decide, by decide, fun _ => by decide⟩, by decide⟩

end Written

end NqcBlocks
