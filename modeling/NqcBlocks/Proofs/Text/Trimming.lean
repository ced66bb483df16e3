import Mathlib.Data.List.TakeWhile
import NqcBlocks.Text.Blank

/-!
# Trimming

What `trimChars` takes off at both ends is of the given kind (`exists_append_trimChars`), and what it leaves
neither starts nor ends so; there is only one way to split a text like that (`trimChars_append`).
-/

namespace NqcBlocks.Text

open List

variable {p : Char → Bool} {cs : List Char} {c : Char}

theorem dropWhile_eq_self (h : ∀ c ∈ cs.head?, p c = false) : cs.dropWhile p = cs := by
  cases cs with
  | nil => rfl
  | cons c cs => rw [dropWhile_cons_of_neg (by rw [h c rfl]; decide)]

theorem head?_dropWhile (h : (cs.dropWhile p).head? = some c) : p c = false := by
  have hnot := head?_dropWhile_not p cs
  rw [h] at hnot
  simpa using hnot

theorem exists_append_dropTail (p : Char → Bool) (cs : List Char) :
    ∃ back, (∀ c ∈ back, p c = true) ∧ cs = dropTail p cs ++ back := by
  refine ⟨(cs.reverse.takeWhile p).reverse, fun c hc => mem_takeWhile_imp (mem_reverse.mp hc), ?_⟩
  unfold dropTail
  rw [← reverse_append, takeWhile_append_dropWhile, reverse_reverse]

theorem exists_append_trimChars (p : Char → Bool) (cs : List Char) :
    ∃ front back, (∀ c ∈ front ++ back, p c = true) ∧ cs = front ++ trimChars p cs ++ back := by
  obtain ⟨back, hback, hcs⟩ := exists_append_dropTail p (cs.dropWhile p)
  refine ⟨cs.takeWhile p, back, fun c hc => ?_, ?_⟩
  · exact (mem_append.mp hc).elim (fun hc => mem_takeWhile_imp hc) (hback c)
  · unfold trimChars
    rw [append_assoc, ← hcs, takeWhile_append_dropWhile]

theorem mem_of_mem_trimChars (h : c ∈ trimChars p cs) : c ∈ cs := by
  obtain ⟨front, back, -, hcs⟩ := exists_append_trimChars p cs
  rw [hcs]
  exact mem_append_left _ (mem_append_right _ h)

theorem head?_trimChars (h : c ∈ (trimChars p cs).head?) : p c = false := by
  obtain ⟨back, -, hcs⟩ := exists_append_dropTail p (cs.dropWhile p)
  have hfirst : (cs.dropWhile p).head? = some c := by
    rw [hcs, head?_append, show (dropTail p (cs.dropWhile p)).head? = some c from h]
    rfl
  exact head?_dropWhile hfirst

theorem getLast?_trimChars (h : c ∈ (trimChars p cs).getLast?) : p c = false := by
  unfold trimChars dropTail at h
  rw [getLast?_reverse] at h
  exact head?_dropWhile h

theorem trimChars_append (front cs back : List Char) (h : ∀ c ∈ front ++ back, p c = true)
    (hhead : ∀ c ∈ cs.head?, p c = false) (hlast : ∀ c ∈ cs.getLast?, p c = false) :
    trimChars p (front ++ cs ++ back) = cs := by
  have hback : ∀ c ∈ back.reverse, p c = true := fun c hc => h c (mem_append_right _ (mem_reverse.mp hc))
  unfold trimChars dropTail
  rw [append_assoc, dropWhile_append_of_pos fun c hc => h c (mem_append_left _ hc)]
  cases cs with
  | nil => rw [nil_append, dropWhile_eq_nil_iff.mpr fun c hc => h c (mem_append_right _ hc)]; rfl
  | cons c cs =>
    have hfront : (c :: cs ++ back).dropWhile p = c :: cs ++ back := dropWhile_eq_self hhead
    rw [hfront, reverse_append, dropWhile_append_of_pos hback,
      dropWhile_eq_self (by rwa [head?_reverse]), reverse_reverse]

theorem trimChars_eq_self (hhead : ∀ c ∈ cs.head?, p c = false) (hlast : ∀ c ∈ cs.getLast?, p c = false) :
    trimChars p cs = cs := by
  simpa using trimChars_append [] cs [] (by simp) hhead hlast

end NqcBlocks.Text
