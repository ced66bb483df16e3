import Mathlib.Data.List.SplitBy
import NqcBlocks.Proofs.Block.Conformity
import NqcBlocks.Proofs.Text.Rows

/-!
# Tokens

The text of a program as a list of tokens: words, numbers and signs, without the white space between
them. Two neighbouring characters are in one token if they **join**: if both may stand inside a name, or
if they are a sign of two characters, such as `==`.
-/

namespace NqcBlocks.Nqc

open List String Text Char

variable {cs : List Char} {s : String} {c : Char}

inductive Token where
  | word (text : String)
  | number (value : Nat)
  | sign (text : String)
  deriving DecidableEq, Repr

def pairSigns : List (Char × Char) :=
  [('=', '='), ('!', '='), ('<', '='), ('>', '='), ('&', '&'), ('|', '|')]

def joins (a b : Char) : Bool := isNameChar a && isNameChar b || pairSigns.contains (a, b)

def lexemes (cs : List Char) : List (List Char) :=
  (cs.splitBy joins).filter fun piece => !piece.all Char.isWhitespace

def Token.ofLexeme (piece : List Char) : Token :=
  if piece.all Char.isDigit then .number (Nat.ofDigitChars 10 piece 0)
  else if isName (String.ofList piece) then .word (String.ofList piece)
  else .sign (String.ofList piece)

def tokens (s : String) : List Token := (lexemes s.toList).map Token.ofLexeme

/-! ## Pieces -/

def isApart (c : Char) : Bool := !isNameChar c && !(['=', '!', '<', '>', '&', '|'].contains c)

theorem joins_of_isApart {a b : Char} (h : isApart a = true ∨ isApart b = true) : joins a b = false := by
  rw [Bool.eq_false_iff]
  intro hj
  unfold joins at hj
  rw [Bool.or_eq_true, Bool.and_eq_true, contains_iff_mem] at hj
  simp only [isApart, Bool.and_eq_true, Bool.not_eq_true', Bool.eq_false_iff, ne_eq, contains_iff_mem] at h
  rcases hj with ⟨ha, hb⟩ | hj
  · rcases h with ⟨h, -⟩ | ⟨h, -⟩
    · exact h ha
    · exact h hb
  · have hmem : ∀ p ∈ pairSigns, p.1 ∈ ['=', '!', '<', '>', '&', '|']
        ∧ p.2 ∈ ['=', '!', '<', '>', '&', '|'] := by decide
    rcases h with ⟨-, h⟩ | ⟨-, h⟩
    · exact h (hmem _ hj).1
    · exact h (hmem _ hj).2

theorem lexemes_append {ds : List Char} (h : ∀ x ∈ cs.getLast?, ∀ y ∈ ds.head?, joins x y = false) :
    lexemes (cs ++ ds) = lexemes cs ++ lexemes ds := by
  unfold lexemes
  rw [splitBy_append h, filter_append]

theorem tokens_append {t : String} (h : ∀ x ∈ s.toList.getLast?, ∀ y ∈ t.toList.head?, joins x y = false) :
    tokens (s ++ t) = tokens s ++ tokens t := by
  unfold tokens
  rw [toList_append, lexemes_append h, map_append]

theorem tokens_append_of_ends (t : String) (h : s.toList.getLast?.all isApart = true) :
    tokens (s ++ t) = tokens s ++ tokens t :=
  tokens_append fun x hx y _ => joins_of_isApart (.inl (by
    rw [Option.mem_def.mp hx] at h
    exact h))

theorem tokens_append_of_starts (s : String) {t : String} (h : t.toList.head?.all isApart = true) :
    tokens (s ++ t) = tokens s ++ tokens t :=
  tokens_append fun x _ y hy => joins_of_isApart (.inr (by
    rw [Option.mem_def.mp hy] at h
    exact h))

theorem tokens_between (s : String) {mid : String} (t : String) (hstarts : mid.toList.head?.any isApart = true)
    (hends : mid.toList.getLast?.any isApart = true) :
    tokens (s ++ mid ++ t) = tokens s ++ (tokens mid ++ tokens t) := by
  have hall : ∀ {o : Option Char}, o.any isApart = true → o.all isApart = true := by
    intro o ho
    cases o with
    | none => rfl
    | some c => exact ho
  rw [String.append_assoc, tokens_append fun x _ y hy => joins_of_isApart (.inr ?_),
    tokens_append_of_ends t (hall hends)]
  cases hcs : mid.toList with
  | nil =>
    rw [hcs] at hstarts
    cases hstarts
  | cons c cs =>
    rw [toList_append, hcs] at hy
    rw [hcs] at hstarts
    cases hy
    exact hstarts

/-! ## Margins -/

theorem isApart_of_isLineBreak (h : isLineBreak c = true) : isApart c = true := by
  by_contra hnot
  unfold isApart at hnot
  rw [Bool.and_eq_true, Bool.not_eq_true', Bool.not_eq_true', not_and_or, Bool.not_eq_false,
    Bool.not_eq_false, contains_iff_mem] at hnot
  rcases hnot with hname | hmem
  · have hn := toNat_of_isNameChar hname
    simp only [isLineBreak, Bool.or_eq_true, Bool.and_eq_true, decide_eq_true_eq, beq_iff_eq] at h
    omega
  · have hnone : ['=', '!', '<', '>', '&', '|'].all (!Text.isLineBreak ·) = true := by decide
    have hc := all_eq_true.mp hnone c hmem
    rw [h] at hc
    cases hc

theorem isChain_splitLines (cs : List Char) : [] ∉ splitLines cs
    ∧ (splitLines cs).IsChain fun line _ => line.getLast?.all isApart = true := by
  fun_induction splitLines cs with
  | case1 => exact ⟨by simp, .nil⟩
  | case2 rest ih => exact ⟨by simp [ih.1], ih.2.cons fun _ _ => by decide⟩
  | case3 c rest hrest hbreak ih =>
    exact ⟨by simp [ih.1], ih.2.cons fun _ _ => isApart_of_isLineBreak hbreak⟩
  | case4 c rest hrest hbreak ih =>
    obtain ⟨hne, hchain⟩ := ih
    -- the character is put in front of the first of the other lines, which ends as before
    cases hlines : splitLines rest with
    | nil => exact ⟨by simp [pushFront], .singleton _⟩
    | cons line more =>
      rw [hlines] at hne hchain
      refine ⟨by
        simp only [pushFront, mem_cons, not_or] at hne ⊢
        exact ⟨by simp, hne.2⟩, ?_⟩
      obtain ⟨d, ds, rfl⟩ := exists_cons_of_ne_nil fun h : line = [] =>
        hne (h ▸ mem_cons_self)
      cases more with
      | nil => exact .singleton _
      | cons next more =>
        rw [isChain_cons_cons] at hchain
        refine isChain_cons_cons.mpr ⟨?_, hchain.2⟩
        rw [getLast?_cons_cons]
        exact hchain.1

theorem lexemes_of_blank (h : ∀ c ∈ cs, c.isWhitespace = true) : lexemes cs = [] := by
  unfold lexemes
  rw [filter_eq_nil_iff]
  intro piece hpiece
  have hall : ∀ c ∈ piece, c.isWhitespace = true := fun c hc => h c (by
    rw [← flatten_splitBy joins cs]
    exact List.mem_flatten.mpr ⟨piece, hpiece, hc⟩)
  simp [all_eq_true.mpr hall]

theorem isApart_of_isWhitespace (h : c.isWhitespace = true) : isApart c = true := by
  simp only [isWhitespace, Bool.or_eq_true, decide_eq_true_eq] at h
  rcases h with ((rfl | rfl) | rfl) | rfl <;> decide

theorem lexemes_margin {margin : List Char} (hm : ∀ c ∈ margin, c.isWhitespace = true) : ∀ {lines : List (List Char)},
      (lines.IsChain fun line _ => line.getLast?.all isApart = true) →
        lexemes (lines.flatMap fun line => margin ++ line) = lexemes lines.flatten
  | [], _ => rfl
  | line :: rest, h => by
    have hfront : ∀ ds, lexemes (margin ++ ds) = lexemes ds := by
      intro ds
      rw [lexemes_append fun x hx y _ => joins_of_isApart (.inl (isApart_of_isWhitespace
        (hm x (mem_of_getLast? hx)))), lexemes_of_blank hm, nil_append]
    rw [flatMap_cons, flatten_cons, List.append_assoc, hfront]
    cases rest with
    | nil => rfl
    | cons next more =>
      rw [isChain_cons_cons] at h
      -- the seam between two lines is a break
      have hseam : ∀ ds, lexemes (line ++ ds) = lexemes line ++ lexemes ds := fun ds =>
        lexemes_append fun x hx y _ => joins_of_isApart (.inl (by
          have hlast := h.1
          rw [Option.mem_def.mp hx] at hlast
          exact hlast))
      rw [hseam, hseam, lexemes_margin hm h.2]

theorem tokens_prefixLines (s : String) {margin : String} (hm : ∀ c ∈ margin.toList, c.isWhitespace = true) :
    tokens (prefixLines s margin) = tokens s := by
  unfold tokens prefixLines
  rw [toList_ofList, lexemes_margin hm (isChain_splitLines s.toList).2, flatten_splitLines]

/-! ## Words and numbers -/

theorem lexemes_of_nameChars (hne : cs ≠ []) (h : ∀ c ∈ cs, isNameChar c = true) : lexemes cs = [cs] := by
  have hchain : cs.IsChain fun a b => joins a b = true := by
    induction cs with
    | nil => exact .nil
    | cons c ds ih =>
      cases ds with
      | nil => exact .singleton c
      | cons d ds =>
        refine isChain_cons_cons.mpr ⟨?_, ih (cons_ne_nil _ _) fun x hx =>
          h x (mem_cons_of_mem _ hx)⟩
        unfold joins
        rw [h c mem_cons_self, h d (mem_cons_of_mem _ mem_cons_self)]
        rfl
  obtain ⟨c, ds, rfl⟩ := exists_cons_of_ne_nil hne
  have hc : c.isWhitespace = false := by
    rw [Bool.eq_false_iff]
    intro hspace
    have hapart := isApart_of_isWhitespace hspace
    unfold isApart at hapart
    rw [h c mem_cons_self] at hapart
    cases hapart
  unfold lexemes
  rw [splitBy_of_isChain hne hchain, filter_singleton, all_cons, hc]
  rfl

theorem isNameChar_of_isDigit (h : c.isDigit = true) : isNameChar c = true ∧ isNameStart c = false := by
  simp only [isDigit, Bool.and_eq_true, decide_eq_true_eq, ge_iff_le] at h
  constructor
  · unfold isNameChar
    rw [Bool.or_eq_true, Bool.and_eq_true, decide_eq_true_eq, decide_eq_true_eq]
    exact .inr h
  · rw [Bool.eq_false_iff]
    intro hstart
    simp only [isNameStart, Bool.or_eq_true, Bool.and_eq_true, decide_eq_true_eq, beq_iff_eq,
      le_def, UInt32.le_iff_toNat_le] at hstart h
    rcases hstart with (hstart | hstart) | rfl <;> simp at * <;> omega

theorem tokens_of_isName (h : isName s = true) : tokens s = [.word s] := by
  have hne : s.toList ≠ [] := by
    intro hnil
    unfold isName at h
    rw [hnil] at h
    cases h
  have hdigits : s.toList.all isDigit = false := by
    rw [Bool.eq_false_iff]
    intro hall
    unfold isName at h
    split at h
    · cases h
    · next c rest hcs =>
      rw [Bool.and_eq_true] at h
      rw [hcs, all_cons, Bool.and_eq_true] at hall
      rw [(isNameChar_of_isDigit hall.1).2] at h
      cases h.1
  unfold tokens
  rw [lexemes_of_nameChars hne fun c hc => isNameChar_of_isName h hc, map_singleton,
    Token.ofLexeme, hdigits, ofList_toList, h]
  rfl

theorem tokens_natText (n : Nat) : tokens (Number.natText n) = [.number n] := by
  have hdigit : ∀ c ∈ Nat.toDigits 10 n, c.isDigit = true := fun c hc =>
    Nat.isDigit_of_mem_toDigits (by decide) (by decide) hc
  unfold tokens Number.natText
  rw [toList_ofList, lexemes_of_nameChars Nat.toDigits_ne_nil
    fun c hc => (isNameChar_of_isDigit (hdigit c hc)).1, map_singleton, Token.ofLexeme,
    if_pos (all_eq_true.mpr hdigit), Nat.ofDigitChars_ten_toDigits]

end NqcBlocks.Nqc
