import NqcBlocks.Proofs.Program.Remarks

/-!
# Indentation is nesting depth

The lines of a program are nested: each is set in once for every brace that is open before it, apart from one that
it starts by closing (`Written.nested`). This is how statements are written, one rule for each of them. Here it is
said of the text of a program, and with braces that are counted: no brace is closed that was not opened, none is
left open, and the margin of a line tells how many are open before it (`indented_by_nesting`).
-/

namespace NqcBlocks

open Nqc Text List String

/-! ## Open braces -/

def openBraces (l : List Char) : Nat := l.count '\x7b' - l.count '\x7d'

section Braces

variable {l front : List Char} {ls ls' : List Line} {d d' d'' : Nat}

theorem count_of_bracesAfter : ∀ {l : List Char} {d d' : Nat}, bracesAfter d l = some d' →
    d' + l.count '\x7d' = d + l.count '\x7b'
  | [], d, d', h => by
    cases h
    rfl
  | c :: l, d, d', h => by
    have hdiffer : ('\x7b' : Char) ≠ '\x7d' := by decide
    rw [bracesAfter] at h
    split_ifs at h with hopen hclose hd
    · rw [hopen, count_cons_self, count_cons_of_ne hdiffer, count_of_bracesAfter h]
      omega
    · have hrest := count_of_bracesAfter h
      rw [hclose, count_cons_self, count_cons_of_ne hdiffer.symm]
      omega
    · rw [count_cons_of_ne hopen, count_cons_of_ne hclose, count_of_bracesAfter h]

theorem count_prefix_le (h : bracesAfter 0 l = some d') (hfront : front <+: l) :
    front.count '\x7d' ≤ front.count '\x7b' := by
  obtain ⟨rest, rfl⟩ := hfront
  rw [bracesAfter_append] at h
  obtain ⟨d, hd, -⟩ := Option.bind_eq_some_iff.mp h
  have hcount := count_of_bracesAfter hd
  omega

theorem openBraces_eq (h : bracesAfter 0 l = some d) : openBraces l = d := by
  have hcount := count_of_bracesAfter h
  unfold openBraces
  omega

theorem Nested.of_append : ∀ {ls : List Line} {d : Nat}, Nested d (ls ++ ls') d'' →
    ∃ d', Nested d ls d' ∧ Nested d' ls' d''
  | [], d, h => ⟨d, .nil, h⟩
  | l :: ls, d, h => by
    cases h with
    | cons hat hbraces hrest =>
      obtain ⟨d', hls, hls'⟩ := Nested.of_append hrest
      exact ⟨d', .cons hat hbraces hls, hls'⟩

/-! ## Rows of code -/

variable {margin s : String}

theorem Line.codeRow_eq (hm : ∀ c ∈ margin.toList, IsMargin c) {l : Line} (h : IsPlain l.code) :
    l.codeRow margin = (indentation margin l.depth ++ l.code).toList :=
  setIn_eq hm h.unbroken l.depth

theorem bracesAfter_codeRow (hm : ∀ c ∈ margin.toList, IsMargin c) {feed : List Char}
    (hfeed : ∀ c ∈ feed, c ≠ '\x7b' ∧ c ≠ '\x7d') {l : Line} (h : IsPlain l.code) (d : Nat) :
    bracesAfter d (l.codeRow margin ++ feed) = bracesAfter d l.code.toList := by
  have hmargin : ∀ c ∈ (indentation margin l.depth).toList, c ≠ '\x7b' ∧ c ≠ '\x7d' := by
    intro c hc
    rcases isMargin_indentation hm l.depth c hc with rfl | rfl <;> decide
  rw [Line.codeRow_eq hm h, toList_append, List.append_assoc, bracesAfter_append,
    bracesAfter_of_ne hmargin, Option.bind_some, bracesAfter_append]
  simp only [bracesAfter_of_ne hfeed, Option.bind_fun_some]

theorem Nested.bracesAfter_rows (hm : ∀ c ∈ margin.toList, IsMargin c) {feed : List Char}
    (hfeed : ∀ c ∈ feed, c ≠ '\x7b' ∧ c ≠ '\x7d') (h : Nested d ls d') (hcodes : ∀ l ∈ ls, IsPlain l.code) :
    bracesAfter d (ls.flatMap fun l => l.codeRow margin ++ feed) = some d' := by
  induction h with
  | nil => rfl
  | cons _ hbraces _ ih =>
    obtain ⟨hl, hls⟩ := forall_mem_cons.mp hcodes
    rw [flatMap_cons, bracesAfter_append, bracesAfter_codeRow hm hfeed hl, hbraces, Option.bind_some, ih hls]

end Braces

/-! ## Lines of code -/

def codeLines (s : String) : List String := (splitOnChar s '\n').filter fun line => !isComment line

/-- **A line is set in by so many margins**, and what is behind them starts with neither a margin nor any other
blank. The depth is that of what is open, or one less if the line starts by closing a brace. -/
def IsSetIn (margin line : String) (opened : Nat) : Prop :=
  ∃ k c rest, line.toList = (indentation margin k).toList ++ c :: rest ∧ isBlank c = false
    ∧ k + (if c = '\x7d' then 1 else 0) = opened

section Written

variable {margin s : String} {ls : List Line}

theorem Written.codeLines_eq (hm : ∀ c ∈ margin.toList, IsMargin c) (h : Written IsPlain margin s ls) :
    codeLines s = (ls ++ [{ code := "" }] : List Line).map fun l => ofList (l.codeRow margin) := by
  have hlast : [""].filter (fun line => !isComment line) = [""] := by decide
  have hrows : (rowsOf margin ls).filter ((fun line => !isComment line) ∘ ofList)
      = ls.map (Line.codeRow margin) := filter_rowsOf_code hm h.codes
  rw [codeLines, splitOnChar_unrows h.text (h.notMem hm), filter_append, hlast, filter_map, hrows,
    List.map_map, map_append]
  rfl

theorem isSetIn_codeRow (hm : ∀ c ∈ margin.toList, IsMargin c) {l : Line} (h : IsPlain l.code) {d : Nat}
    (hat : l.code = "" ∧ l.depth = 0 ∨ l.code ≠ "" ∧ l.depth + closesFirst l.code = d)
    (hne : ofList (l.codeRow margin) ≠ "") : IsSetIn margin (.ofList (l.codeRow margin)) d := by
  rw [Line.codeRow_eq hm h, ofList_toList] at hne ⊢
  rcases hat with ⟨hcode, hdepth⟩ | ⟨hcode, hdepth⟩
  · rw [hcode, hdepth] at hne
    exact absurd rfl hne
  · have hstarts := h.starts hcode
    unfold Starts at hstarts
    unfold closesFirst at hdepth
    cases hchars : l.code.toList with
    | nil => exact absurd (String.toList_eq_nil_iff.mp hchars) hcode
    | cons c rest =>
      rw [hchars, head?_cons] at hstarts hdepth
      refine ⟨l.depth, c, rest, ?_, by simpa using hstarts, ?_⟩
      · rw [toList_append, hchars]
      · simpa only [Option.some.injEq] using hdepth

theorem Written.isSetIn_of_mem (hm : ∀ c ∈ margin.toList, IsMargin c) (h : Written IsPlain margin s ls)
    {before after : List String} {line : String} (hlines : codeLines s = before ++ line :: after)
    (hne : line ≠ "") : IsSetIn margin line (openBraces (before.flatMap toList)) := by
  have hcodes : ∀ l ∈ ls ++ [{ code := "" }], IsPlain l.code :=
    forall_mem_append.mpr ⟨h.codes, List.forall_mem_singleton.mpr isPlain_empty⟩
  have hnested : Nested 0 (ls ++ [{ code := "" }]) 0 := h.nested.append (.cons (.inl ⟨rfl, rfl⟩) rfl .nil)
  rw [h.codeLines_eq hm] at hlines
  obtain ⟨front, back, hsplit, rfl, hback⟩ := List.map_eq_append_iff.mp hlines
  obtain ⟨l, rest, rfl, rfl, rfl⟩ := List.map_eq_cons_iff.mp hback
  rw [hsplit] at hnested hcodes
  obtain ⟨hfront, hback⟩ := forall_mem_append.mp hcodes
  obtain ⟨d, hbefore, hafter⟩ := hnested.of_append
  have hopen := hbefore.bracesAfter_rows hm (forall_mem_nil _) hfront
  have hrows : (front.map fun l : Line => ofList (l.codeRow margin)).flatMap toList
      = front.flatMap fun l => l.codeRow margin ++ [] := by
    rw [flatMap_map]
    exact flatMap_congr fun l _ => by rw [toList_ofList, append_nil]
  rw [hrows, openBraces_eq hopen]
  cases hafter with
  | cons hat _ _ => exact isSetIn_codeRow hm (hback l mem_cons_self) hat hne

theorem Written.bracesAfter_withoutComments (hm : ∀ c ∈ margin.toList, IsMargin c)
    (h : Written IsPlain margin s ls) : bracesAfter 0 (withoutComments s).toList = some 0 := by
  rw [toList_withoutComments h.text (h.notMem hm), filter_rowsOf_code hm h.codes, unrows, flatMap_map]
  exact h.nested.bracesAfter_rows hm (by decide) h.codes

end Written

namespace Generation

variable {g : Graph} {options : Options} {text : String}

/-- **Indentation is nesting depth.** Let a program without a preamble, set in by blanks and tabs, be generated for
a graph. Apart from its comments, no start of it closes more braces than it opens, and all of it closes as many as it
opens. Each of its lines, if it is not empty, consists of so many margins and of what starts with no blank, where the
number of margins is that of the braces that are open before the line, less one if the line starts with a closing
brace. -/
theorem indented_by_nesting (hg : g.Reachable) (hindent : ∀ c ∈ options.indent.toList, IsMargin c)
    (hpreamble : options.preamble = "") (hcode : code g options = .ok text) :
    (∀ front, front <+: (withoutComments text).toList → front.count '\x7d' ≤ front.count '\x7b')
    ∧ (withoutComments text).toList.count '\x7d' = (withoutComments text).toList.count '\x7b'
    ∧ ∀ before line after, codeLines text = before ++ line :: after → line ≠ "" →
      IsSetIn options.indent line (openBraces (before.flatMap String.toList)) := by
  have hwritten := written_program hg.forest hindent hpreamble hcode
  have hbraces := hwritten.bracesAfter_withoutComments hindent
  refine ⟨fun front hfront => count_prefix_le hbraces hfront, ?_, fun before line after hlines hne =>
    hwritten.isSetIn_of_mem hindent hlines hne⟩
  have hcount := count_of_bracesAfter hbraces
  rwa [Nat.zero_add, Nat.zero_add] at hcount

def nestedBranches : List Command :=
  [.create "main_task" {}, .create "repeat_forever" {}, .connectStatement 1 "STATEMENTS" 2,
    .create "if" { mutation := [("has_else", .bool true)], comment := some (.text "\x7d\x7b") },
    .connectStatement 2 "DO" 3, .create "motor_off" {}, .connectStatement 3 "ELSE" 4]

def nestedText : String :=
  "task main()\n\x7b\n\twhile(true) \x7b\n\t\t// \x7d\x7b\n\t\tif (false) \x7b\n\t\t\x7d else \x7b\n\t\t\tOff(OUT_A);\n"
    ++ "\t\t\x7d\n\t\x7d\n\x7d\n"

theorem code_nestedBranches : code (Editor.run {} nestedBranches).graph { indent := "\t" } = .ok nestedText :=
  eq_ok_of_toOption (by decide +kernel)

/-- Three braces are open before the line of the second branch, which is set in twice, as it closes one. -/
theorem indented_by_nesting_branches :
    let g := (Editor.run {} nestedBranches).graph
    let before := ["task main()", "\x7b", "\twhile(true) \x7b", "\t\tif (false) \x7b"]
    g.Reachable ∧ code g { indent := "\t" } = .ok nestedText
      ∧ codeLines nestedText = before ++ "\t\t\x7d else \x7b" :: ["\t\t\tOff(OUT_A);", "\t\t\x7d", "\t\x7d", "\x7d", ""]
      ∧ openBraces (before.flatMap String.toList) = 3 ∧ IsSetIn "\t" "\t\t\x7d else \x7b" 3 := by
  intro g before
  have hreach : g.Reachable := Graph.reachable_run .empty _
  have htabs : ∀ c ∈ "\t".toList, c = '\t' := by decide
  have hlines : codeLines nestedText = before ++ "\t\t\x7d else \x7b"
      :: ["\t\t\tOff(OUT_A);", "\t\t\x7d", "\t\x7d", "\x7d", ""] := by
    decide +kernel
  obtain ⟨-, -, hdepth⟩ := indented_by_nesting hreach (fun c hc => .inr (htabs c hc)) rfl code_nestedBranches
  exact ⟨hreach, code_nestedBranches, hlines, rfl, hdepth before _ _ hlines (by decide)⟩

end Generation

end NqcBlocks
