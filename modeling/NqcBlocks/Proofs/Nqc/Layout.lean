import NqcBlocks.Nqc.Stmt
import NqcBlocks.Proofs.Text.Rows

/-!
# The layout of code

What is written for statements goes into rows: those of **remarks**, which start with `//`, and those of code.
A remark stays one behind a margin of blanks (`IsRemark.margin`), which is why the rows of a body can be set in
any number of times. What is spliced into code, names and expressions, stays **inside of a line**: it has
neither a break nor a brace in it, so that the braces of code are those that statements are written with
(`bracesAfter`).
-/

namespace NqcBlocks.Nqc

open Text List

variable {l : List Char} {s : String}

/-! ## Remarks -/

def IsMargin (c : Char) : Prop := c = ' ' ∨ c = '\t'

def IsRemark (l : List Char) : Prop :=
  ∃ blanks rest, l = blanks ++ '/' :: '/' :: rest ∧ (∀ c ∈ blanks, IsMargin c) ∧ '\n' ∉ rest

theorem isLineBreak_of_isMargin {c : Char} (h : IsMargin c) : isLineBreak c = false := by
  rcases h with rfl | rfl <;> rfl

theorem ne_newline_of_plain (h : ∀ c ∈ l, isLineBreak c = false) : '\n' ∉ l :=
  fun hmem => absurd (h _ hmem) (by decide)

theorem IsRemark.notMem (h : IsRemark l) : '\n' ∉ l := by
  obtain ⟨blanks, rest, rfl, hblanks, hrest⟩ := h
  have hnot : '\n' ∉ blanks := ne_newline_of_plain fun c hc => isLineBreak_of_isMargin (hblanks c hc)
  simp [hnot, hrest]

theorem IsRemark.ne_nil (h : IsRemark l) : l ≠ [] := by
  obtain ⟨blanks, rest, rfl, -⟩ := h
  simp

theorem IsRemark.margin {margin : List Char} (h : IsRemark l) (hm : ∀ c ∈ margin, IsMargin c) :
    IsRemark (margin ++ weave margin l) := by
  have hplain : ∀ c ∈ margin, isLineBreak c = false := fun c hc => isLineBreak_of_isMargin (hm c hc)
  have hslashes : ∀ c ∈ ['/', '/'], isLineBreak c = false := by decide
  obtain ⟨blanks, rest, rfl, hblanks, hrest⟩ := h
  -- the start of the remark holds no break, so that all changes come after it
  have hstart : ∀ c ∈ blanks ++ ['/', '/'], isLineBreak c = false := fun c hc =>
    (mem_append.mp hc).elim (fun hc => isLineBreak_of_isMargin (hblanks c hc)) (hslashes c)
  have hweave : weave margin (blanks ++ '/' :: '/' :: rest) = blanks ++ '/' :: '/' :: weave margin rest := by
    have h : weave margin _ = _ := weave_append hstart rest
    simpa only [append_assoc, cons_append, nil_append] using h
  refine ⟨margin ++ blanks, weave margin rest, ?_, ?_, ?_⟩
  · rw [hweave, append_assoc]
  · intro c hc
    exact (mem_append.mp hc).elim (hm c) (hblanks c)
  · exact notMem_weave (ne_newline_of_plain hplain) hrest

/-! ## Inside of a line -/

def isInline (c : Char) : Bool := 32 ≤ c.toNat && c.toNat < 127 && c != '\x7b' && c != '\x7d'

def Inline (s : String) : Prop := ∀ c ∈ s.toList, isInline c = true

instance (s : String) : Decidable (Inline s) := inferInstanceAs (Decidable (∀ c ∈ s.toList, _))

section Inline

variable {s' : String} {e e' : Expr}

theorem isLineBreak_of_isInline {c : Char} (h : isInline c = true) : isLineBreak c = false := by
  unfold isInline at h
  simp only [Bool.and_eq_true, decide_eq_true_eq] at h
  obtain ⟨⟨⟨hlow, hhigh⟩, -⟩, -⟩ := h
  unfold isLineBreak
  simp only [Bool.or_eq_false_iff, Bool.and_eq_false_iff, decide_eq_false_iff_not, beq_eq_false_iff_ne]
  omega

theorem Inline.plain (h : Inline s) : ∀ c ∈ s.toList, isLineBreak c = false :=
  fun c hc => isLineBreak_of_isInline (h c hc)

theorem Inline.append (h : Inline s) (h' : Inline s') : Inline (s ++ s') := by
  intro c hc
  rw [String.toList_append] at hc
  exact (mem_append.mp hc).elim (h c) (h' c)

theorem Inline.intercalate {sep : String} (hsep : Inline sep) : ∀ {ss : List String},
    (∀ s ∈ ss, Inline s) → Inline (sep.intercalate ss)
  | [], _ => fun c hc => absurd hc (by simp)
  | [s], h => by
    rw [String.intercalate_singleton]
    exact h s mem_cons_self
  | s :: s' :: ss, h => by
    rw [String.intercalate_cons_cons]
    exact ((h s mem_cons_self).append hsep).append (Inline.intercalate hsep fun x hx => h x (mem_cons_of_mem _ hx))

theorem Inline.binary (op : Operator) (h : Inline e.text) (h' : Inline e'.text) :
    Inline (Expr.binary op e e').text := by
  have hsymbol : Inline (" " ++ op.symbol ++ " ") := by cases op <;> decide
  have htext : (Expr.binary op e e').text = e.text ++ (" " ++ op.symbol ++ " ") ++ e'.text := by
    rw [Expr.text]
    simp only [String.append_assoc]
  rw [htext]
  exact (h.append hsymbol).append h'

theorem Inline.group (h : Inline e.text) : Inline (Expr.group e).text := by
  rw [Expr.text]
  exact (Inline.append (by decide) h).append (by decide)

theorem Inline.negate (h : Inline e.text) : Inline (Expr.negate e).text := by
  rw [Expr.text]
  split
  · exact .append (by decide) h
  · exact (Inline.append (by decide) h).append (by decide)

end Inline

/-! ## Braces -/

/-- **How many braces are open after a text**, if `d` are open before it; there is no answer if it closes more
than are open. -/
def bracesAfter : Nat → List Char → Option Nat
  | d, [] => some d
  | d, c :: rest =>
    if c = '\x7b' then bracesAfter (d + 1) rest
    else if c = '\x7d' then (if d = 0 then none else bracesAfter (d - 1) rest)
    else bracesAfter d rest

theorem bracesAfter_append (l' : List Char) : ∀ (l : List Char) (d : Nat),
    bracesAfter d (l ++ l') = (bracesAfter d l).bind fun d' => bracesAfter d' l'
  | [], d => rfl
  | c :: l, d => by
    rw [cons_append, bracesAfter, bracesAfter]
    split_ifs
    · exact bracesAfter_append l' l _
    · rfl
    · exact bracesAfter_append l' l _
    · exact bracesAfter_append l' l _

theorem bracesAfter_succ : ∀ {l : List Char} {d d' : Nat}, bracesAfter d l = some d' →
    bracesAfter (d + 1) l = some (d' + 1)
  | [], d, d', h => by
    cases h
    rfl
  | c :: l, d, d', h => by
    rw [bracesAfter] at h ⊢
    by_cases hopen : c = '\x7b'
    · rw [if_pos hopen] at h ⊢
      exact bracesAfter_succ h
    rw [if_neg hopen] at h ⊢
    by_cases hclose : c = '\x7d'
    · rw [if_pos hclose] at h ⊢
      cases d with
      | zero => cases h
      | succ d => exact bracesAfter_succ h
    · rw [if_neg hclose] at h ⊢
      exact bracesAfter_succ h

theorem bracesAfter_of_ne (h : ∀ c ∈ l, c ≠ '\x7b' ∧ c ≠ '\x7d') (d : Nat) : bracesAfter d l = some d := by
  induction l with
  | nil => rfl
  | cons c l ih =>
    obtain ⟨⟨hopen, hclose⟩, hl⟩ := forall_mem_cons.mp h
    rw [bracesAfter, if_neg hopen, if_neg hclose, ih hl]

theorem bracesAfter_of_isInline (h : ∀ c ∈ l, isInline c = true) (d : Nat) : bracesAfter d l = some d := by
  refine bracesAfter_of_ne (fun c hc => ⟨?_, ?_⟩) d
  · rintro rfl
    cases h _ hc
  · rintro rfl
    cases h _ hc

end NqcBlocks.Nqc
