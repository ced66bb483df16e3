import NqcBlocks.Proofs.Nqc.Layout
import NqcBlocks.Text.Blank

/-!
# Comment lines

The lines of a text that are comments: their first characters that are not blank are two slashes. Lines
are here what stands between line feeds. Taking the comments out of a text of rows leaves the text of its
other rows (`toList_withoutComments`).
-/

namespace NqcBlocks

open List String

namespace Text

def isComment (line : String) : Bool := "//".toList.isPrefixOf (line.toList.dropWhile isBlank)

theorem isComment_ofList (l : List Char) : isComment (.ofList l) = ['/', '/'].isPrefixOf (l.dropWhile isBlank) := by
  simp only [isComment, toList_ofList]
  rfl

def withoutComments (s : String) : String :=
  "\n".intercalate ((splitOnChar s '\n').filter fun line => !isComment line)

def commentsOf (s : String) : List String :=
  ((splitOnChar s '\n').filter isComment).map fun line => .ofList (line.toList.dropWhile isBlank)

/-! ## Texts of rows -/

section Rows

variable {s : String} {ls : List (List Char)}

theorem splitOnChar_unrows (hs : s.toList = unrows ls) (h : ∀ l ∈ ls, '\n' ∉ l) :
    splitOnChar s '\n' = ls.map ofList ++ [""] := by
  rw [splitOnChar, hs, splitAt_unrows h, map_append]
  rfl

theorem toList_intercalate_rows : ∀ ls : List (List Char),
    ("\n".intercalate (ls.map ofList ++ [""])).toList = unrows ls
  | [] => rfl
  | l :: ls => by
    have hne : ls.map ofList ++ [""] ≠ [] := by simp
    rw [map_cons, cons_append, String.intercalate_cons_of_ne_nil hne, toList_append,
      toList_append, toList_intercalate_rows ls, toList_ofList, unrows_cons,
      List.append_assoc]
    rfl

theorem toList_withoutComments (hs : s.toList = unrows ls) (h : ∀ l ∈ ls, '\n' ∉ l) :
    (withoutComments s).toList = unrows (ls.filter fun l => !isComment (.ofList l)) := by
  have hlast : [""].filter (fun line => !isComment line) = [""] := by decide
  rw [withoutComments, splitOnChar_unrows hs h, filter_append, filter_map, hlast]
  exact toList_intercalate_rows _

theorem commentsOf_unrows (hs : s.toList = unrows ls) (h : ∀ l ∈ ls, '\n' ∉ l) :
    commentsOf s = (ls.filter fun l => isComment (.ofList l)).map fun l =>
      .ofList (l.dropWhile isBlank) := by
  have hlast : [""].filter isComment = [] := by decide
  rw [commentsOf, splitOnChar_unrows hs h, filter_append, filter_map, hlast, append_nil, List.map_map]
  refine map_congr_left fun l _ => ?_
  show ofList ((ofList l).toList.dropWhile isBlank) = _
  rw [toList_ofList]

end Rows

end Text

namespace Nqc

open Text

/-! ## Margins -/

section Margins

variable {margin l : List Char}

theorem isBlank_of_isMargin {c : Char} (h : IsMargin c) : isBlank c = true := by
  rcases h with rfl | rfl <;> rfl

theorem dropWhile_margin (hm : ∀ c ∈ margin, IsMargin c) : (margin ++ l).dropWhile isBlank = l.dropWhile isBlank :=
  dropWhile_append_of_pos fun c hc => isBlank_of_isMargin (hm c hc)

theorem isComment_margin (hm : ∀ c ∈ margin, IsMargin c) :
    isComment (.ofList (margin ++ l)) = isComment (.ofList l) := by
  rw [isComment_ofList, isComment_ofList, dropWhile_margin hm]

theorem isComment_of_isRemark (h : IsRemark l) : isComment (.ofList l) = true := by
  obtain ⟨blanks, rest, rfl, hblanks, -⟩ := h
  rw [isComment_margin hblanks, isComment_ofList, dropWhile_cons_of_neg (by decide)]
  rfl

end Margins

/-! ## Sober texts -/

def isSober : List Char → Bool
  | [] => true
  | c :: rest => (c != '/' || rest.head? == some ' ') && isSober rest

def Sober (s : String) : Prop := isSober s.toList = true

instance (s : String) : Decidable (Sober s) := inferInstanceAs (Decidable (_ = true))

theorem isSober_append {l l' : List Char} (h : isSober l = true) (h' : isSober l' = true) :
    isSober (l ++ l') = true := by
  induction l with
  | nil => exact h'
  | cons c l ih =>
    rw [isSober, Bool.and_eq_true, Bool.or_eq_true] at h
    rw [cons_append, isSober, Bool.and_eq_true, Bool.or_eq_true]
    refine ⟨h.1.imp_right fun hhead => ?_, ih h.2⟩
    rw [head?_append, beq_iff_eq.mp hhead]
    rfl

theorem isSober_dropWhile {p : Char → Bool} {l : List Char} (h : isSober l = true) :
    isSober (l.dropWhile p) = true := by
  induction l with
  | nil => exact h
  | cons c l ih =>
    rw [dropWhile_cons]
    split
    · exact ih (Bool.and_eq_true_iff.mp h).2
    · exact h

section Sober

variable {s s' : String} {e e' : Expr}

theorem sober_of_notMem (h : '/' ∉ s.toList) : Sober s := by
  unfold Sober
  generalize s.toList = l at h
  induction l with
  | nil => rfl
  | cons c l ih =>
    rw [mem_cons, not_or] at h
    rw [isSober, ih h.2, Bool.and_true, Bool.or_eq_true, bne_iff_ne]
    exact .inl (Ne.symm h.1)

theorem Sober.append (h : Sober s) (h' : Sober s') : Sober (s ++ s') := by
  unfold Sober
  rw [toList_append]
  exact isSober_append h h'

theorem Sober.binary (op : Operator) (h : Sober e.text) (h' : Sober e'.text) : Sober (Expr.binary op e e').text := by
  have hsymbol : Sober (" " ++ op.symbol ++ " ") := by cases op <;> decide
  have htext : (Expr.binary op e e').text = e.text ++ (" " ++ op.symbol ++ " ") ++ e'.text := by
    rw [Expr.text]
    simp only [String.append_assoc]
  rw [htext]
  exact (h.append hsymbol).append h'

theorem Sober.group (h : Sober e.text) : Sober (Expr.group e).text := by
  rw [Expr.text]
  exact (Sober.append (by decide) h).append (by decide)

theorem Sober.negate (h : Sober e.text) : Sober (Expr.negate e).text := by
  rw [Expr.text]
  split
  · exact .append (by decide) h
  · exact (Sober.append (by decide) h).append (by decide)

theorem isComment_of_sober (h : Sober s) : isComment s = false := by
  have hdrop : isSober (s.toList.dropWhile isBlank) = true := isSober_dropWhile h
  unfold isComment
  rw [Bool.eq_false_iff, Ne, isPrefixOf_iff_prefix]
  rintro ⟨rest, hrest⟩
  -- after the first slash of a comment there is another one, and no blank
  rw [← hrest] at hdrop
  exact absurd hdrop (by simp [isSober])

theorem isComment_of_head (h : (s.toList.dropWhile isBlank).head?.any (· != '/') = true) (s' : String) :
    isComment (s ++ s') = false := by
  unfold isComment
  rw [toList_append, dropWhile_append]
  cases hdrop : s.toList.dropWhile isBlank with
  | nil =>
    rw [hdrop] at h
    cases h
  | cons c rest =>
    rw [hdrop] at h
    have hslash : ('/' == c) = false := beq_eq_false_iff_ne.mpr (Ne.symm (bne_iff_ne.mp h))
    show ('/' == c && _) = false
    rw [hslash, Bool.false_and]

theorem isComment_append (hs : '/' ∉ s.toList) (h : isComment s' = false) : isComment (s ++ s') = false := by
  cases hdrop : s.toList.dropWhile isBlank with
  | nil =>
    unfold isComment at h ⊢
    rw [toList_append, dropWhile_append, hdrop]
    exact h
  | cons c rest =>
    have hc : c ∈ s.toList := dropWhile_subset _ (hdrop ▸ mem_cons_self)
    refine isComment_of_head ?_ s'
    rw [hdrop]
    exact bne_iff_ne.mpr fun h => hs (h ▸ hc)

end Sober

end Nqc

end NqcBlocks
