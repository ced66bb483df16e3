import Mathlib.Data.List.Basic
import NqcBlocks.Text.Lines

/-!
# Rows of a text

A **row** is what stands before a line feed. Rows are not lines: a line also ends at a carriage return
and at the other breaks of `Text.isLineBreak`, all of which a row may hold. Generated code is made of
rows, since the only breaks that the generator writes of its own are line feeds, while the remarks that
it copies may hold any others.
-/

namespace NqcBlocks.Text

open List

variable {l : List Char}

/-- A test of all characters of a text goes through the text, and not through all characters. -/
instance decidableForallMemChar (p : Char → Prop) [DecidablePred p] (l : List Char) :
    Decidable (∀ c ∈ l, p c) := List.decidableBAll p l

def rows (s : String) : List String := (splitOnChar s '\n').dropLast

def rowChars (s : String) : List (List Char) := (splitAt '\n' s.toList).dropLast

theorem rows_eq (s : String) : rows s = (rowChars s).map String.ofList := by
  rw [rows, rowChars, splitOnChar, map_dropLast]

def unrows (ls : List (List Char)) : List Char := ls.flatMap (· ++ ['\n'])

@[simp] theorem unrows_nil : unrows [] = [] := rfl

@[simp] theorem unrows_cons (l : List Char) (ls : List (List Char)) :
    unrows (l :: ls) = l ++ '\n' :: unrows ls := by
  rw [unrows, flatMap_cons, append_assoc]
  rfl

@[simp] theorem unrows_append (ls ls' : List (List Char)) :
    unrows (ls ++ ls') = unrows ls ++ unrows ls' := flatMap_append

/-! ## Reading rows -/

theorem splitAt_append (hl : '\n' ∉ l) (rest : List Char) :
    splitAt '\n' (l ++ '\n' :: rest) = l :: splitAt '\n' rest := by
  induction l with
  | nil => simp [splitAt]
  | cons c l ih =>
    rw [mem_cons, not_or] at hl
    have hc : (c == '\n') = false := beq_eq_false_iff_ne.mpr (Ne.symm hl.1)
    rw [cons_append, splitAt, hc, ih hl.2]
    rfl

theorem splitAt_unrows : ∀ {ls : List (List Char)}, (∀ l ∈ ls, '\n' ∉ l) → splitAt '\n' (unrows ls) = ls ++ [[]]
  | [], _ => rfl
  | l :: ls, h => by
    rw [unrows_cons, splitAt_append (h l mem_cons_self), splitAt_unrows fun l hl => h l (mem_cons_of_mem _ hl)]
    rfl

theorem rowChars_eq {s : String} {ls : List (List Char)} (hs : s.toList = unrows ls)
    (h : ∀ l ∈ ls, '\n' ∉ l) : rowChars s = ls := by
  rw [rowChars, hs, splitAt_unrows h, dropLast_concat]

theorem mem_of_mem_splitAt {sep c : Char} {cs : List Char} (hl : l ∈ splitAt sep cs) (hc : c ∈ l) :
    c ∈ cs ∧ c ≠ sep := by
  induction cs generalizing l with
  | nil =>
    rw [splitAt, mem_singleton] at hl
    rw [hl] at hc
    cases hc
  | cons d cs ih =>
    have ih : ∀ {l}, l ∈ splitAt sep cs → c ∈ l → c ∈ d :: cs ∧ c ≠ sep :=
      fun hl hc => (ih hl hc).imp_left (mem_cons_of_mem _)
    have hd : ¬ (d == sep) = true → d ∈ d :: cs ∧ d ≠ sep :=
      fun h => ⟨mem_cons_self, fun heq => h (beq_iff_eq.mpr heq)⟩
    rw [splitAt] at hl
    split at hl
    · rcases mem_cons.mp hl with rfl | hl
      · cases hc
      · exact ih hl hc
    · next hne =>
      rcases hsplit : splitAt sep cs with _ | ⟨line, more⟩ <;> rw [hsplit] at hl ih
      · cases mem_singleton.mp hl
        exact mem_singleton.mp hc ▸ hd hne
      · rcases mem_cons.mp hl with rfl | hl
        · rcases mem_cons.mp hc with rfl | hc
          · exact hd hne
          · exact ih mem_cons_self hc
        · exact ih (mem_cons_of_mem _ hl) hc

/-! ## Lines -/

theorem splitLines_cons {c : Char} (h : ¬ (c = '\r' ∧ l.head? = some '\n')) : splitLines (c :: l)
    = if isLineBreak c then [c] :: splitLines l else pushFront c (splitLines l) := by
  rw [splitLines]
  rintro rest rfl rfl
  exact h ⟨rfl, rfl⟩

theorem pushFront_append (c : Char) {ls : List (List Char)} (h : ls ≠ []) (ls' : List (List Char)) :
    pushFront c (ls ++ ls') = pushFront c ls ++ ls' := by
  cases ls with
  | nil => exact absurd rfl h
  | cons line ls => rfl

theorem splitLines_ne_nil (h : l ≠ []) : splitLines l ≠ [] := by
  fun_cases splitLines l with
  | case1 => exact absurd rfl h
  | case2 | case3 => exact cons_ne_nil _ _
  | case4 c rest => cases splitLines rest <;> exact cons_ne_nil _ _

theorem flatten_splitLines (l : List Char) : (splitLines l).flatten = l := by
  fun_induction splitLines l with
  | case1 => rfl
  | case2 l ih => rw [flatten_cons, ih]; rfl
  | case3 c l _ _ ih => rw [flatten_cons, ih]; rfl
  | case4 c l _ _ ih =>
    have hpush : ∀ ls, (pushFront c ls).flatten = c :: ls.flatten := by rintro (_ | ⟨line, ls⟩) <;> rfl
    rw [hpush, ih]

/-- **A line feed ends a line**, whatever comes after it. -/
theorem splitLines_append_cons (l rest : List Char) :
    splitLines (l ++ '\n' :: rest) = splitLines (l ++ ['\n']) ++ splitLines rest := by
  have hstep : ∀ {c l}, (∀ l', c = '\r' → l = '\n' :: l' → False) →
      splitLines (l ++ '\n' :: rest) = splitLines (l ++ ['\n']) ++ splitLines rest →
      splitLines (c :: (l ++ '\n' :: rest)) = splitLines (c :: (l ++ ['\n'])) ++ splitLines rest := by
    intro c l hnot ih
    by_cases hcr : c = '\r' ∧ l = []
    · -- the carriage return and the line feed are one break
      obtain ⟨rfl, rfl⟩ := hcr
      rfl
    · have hcons : ∀ rest, ¬ (c = '\r' ∧ (l ++ '\n' :: rest).head? = some '\n') := by
        rintro rest ⟨rfl, hhead⟩
        cases l with
        | nil => exact hcr ⟨rfl, rfl⟩
        | cons d l => exact hnot l rfl (congrArg (· :: l) (Option.some.inj hhead))
      rw [splitLines_cons (hcons rest), splitLines_cons (hcons []), ih]
      split
      · rfl
      · exact pushFront_append c (splitLines_ne_nil (by simp)) _
  fun_induction splitLines l with
  | case1 => rfl
  | case2 l ih => exact congrArg (['\r', '\n'] :: ·) ih
  | case3 c l hnot _ ih | case4 c l hnot _ ih => exact hstep hnot ih

/-! ## Margins -/

def weave (margin : List Char) : List Char → List Char
  | [] => []
  | c :: rest =>
    c :: if isLineBreak c && !(c == '\r' && rest.isEmpty) then margin ++ weave margin rest
      else weave margin rest

section Margins

variable {margin : List Char}

theorem weave_append (hl : ∀ c ∈ l, isLineBreak c = false) (rest : List Char) :
    weave margin (l ++ rest) = l ++ weave margin rest := by
  induction l with
  | nil => rfl
  | cons c l ih =>
    rw [cons_append, weave, hl c mem_cons_self, Bool.false_and, ih fun c hc => hl c (mem_cons_of_mem _ hc)]
    rfl

theorem weave_of_plain (hl : ∀ c ∈ l, isLineBreak c = false) : weave margin l = l := by
  have h : weave margin _ = _ := weave_append hl []
  rwa [append_nil, weave, append_nil] at h

theorem notMem_weave (hmargin : '\n' ∉ margin) (hl : '\n' ∉ l) : '\n' ∉ weave margin l := by
  induction l with
  | nil => exact hl
  | cons c l ih =>
    rw [mem_cons, not_or] at hl
    rw [weave, mem_cons, not_or]
    refine ⟨hl.1, ?_⟩
    split
    · rw [mem_append, not_or]
      exact ⟨hmargin, ih hl.2⟩
    · exact ih hl.2

theorem flatMap_splitLines (hl : '\n' ∉ l) : (splitLines (l ++ ['\n'])).flatMap (margin ++ ·)
    = margin ++ weave margin l ++ ['\n'] := by
  induction l with
  | nil =>
    rw [weave, append_nil]
    exact flatMap_singleton ..
  | cons c l ih =>
    rw [mem_cons, not_or] at hl
    have ih := ih hl.2
    by_cases hcr : c = '\r' ∧ l = []
    · -- the carriage return and the line feed are one break
      obtain ⟨rfl, rfl⟩ := hcr
      rw [show weave margin ['\r'] = ['\r'] from rfl, append_assoc]
      exact flatMap_singleton ..
    · have hhead : ¬ (c = '\r' ∧ (l ++ ['\n']).head? = some '\n') := by
        rintro ⟨rfl, hhead⟩
        cases l with
        | nil => exact hcr ⟨rfl, rfl⟩
        | cons d l => exact hl.2 (Option.some.inj hhead ▸ mem_cons_self)
      have hcond : (c == '\r' && l.isEmpty) = false := by
        rw [Bool.and_eq_false_iff, beq_eq_false_iff_ne, isEmpty_eq_false_iff]
        exact not_and_or.mp hcr
      rw [cons_append, splitLines_cons hhead, weave, hcond, Bool.not_false, Bool.and_true]
      split
      · rw [flatMap_cons, ih]
        simp only [append_assoc, cons_append, nil_append]
      · -- no break: the character goes in front of the first line of the others
        obtain ⟨line, more, hlines⟩ := exists_cons_of_ne_nil (splitLines_ne_nil (l := l ++ ['\n']) (by simp))
        rw [hlines, flatMap_cons, append_assoc, append_assoc, append_cancel_left_eq] at ih
        rw [hlines, pushFront, flatMap_cons]
        simp only [append_assoc, cons_append, ih]

theorem prefixLines_unrows {s m : String} {ls : List (List Char)} (hs : s.toList = unrows ls)
    (h : ∀ l ∈ ls, '\n' ∉ l) :
    (prefixLines s m).toList = unrows (ls.map fun l => m.toList ++ weave m.toList l) := by
  rw [prefixLines, String.toList_ofList, hs]
  clear hs
  induction ls with
  | nil => rfl
  | cons l ls ih =>
    rw [unrows_cons, splitLines_append_cons, flatMap_append, flatMap_splitLines (h l mem_cons_self),
      ih fun l hl => h l (mem_cons_of_mem _ hl), map_cons, unrows_cons, append_assoc]
    rfl

end Margins

end NqcBlocks.Text
