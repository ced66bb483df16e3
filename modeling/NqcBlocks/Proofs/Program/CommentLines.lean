import NqcBlocks.Proofs.Program.Tidiness

/-!
# The lines of a remark

A remark is cut at line feeds and each of its rows gets two slashes, but lines also end at other breaks. What
stands behind such a break inside of a row is on a line of its own, and is part of a comment only if it starts
with two slashes itself (`Contained`). Putting a margin in front of the lines makes no difference
(`splitLines_prefixLines`).
-/

namespace NqcBlocks

open Text

variable {l m line : List Char} {ls : List (List Char)}

namespace Text

theorem splitLines_unrows (ls : List (List Char)) :
    splitLines (unrows ls) = ls.flatMap fun l => splitLines (l ++ ['\n']) := by
  induction ls with
  | nil => rfl
  | cons l ls ih => rw [unrows_cons, splitLines_append_cons, ih, List.flatMap_cons]

theorem splitLines_margin (hm : ∀ c ∈ m, isLineBreak c = false) (h : splitLines l = line :: ls) :
    splitLines (m ++ l) = (m ++ line) :: ls := by
  induction m with
  | nil => exact h
  | cons c m ih =>
    have hc := hm c List.mem_cons_self
    rw [List.cons_append, splitLines_cons (by rintro ⟨rfl, -⟩; cases hc), hc,
      ih fun c hc => hm c (List.mem_cons_of_mem _ hc)]
    rfl

theorem splitLines_flatMap_of_tail (hm : ∀ c ∈ m, isLineBreak c = false) (h : ∀ {line ls}, splitLines l = line :: ls →
      splitLines (line ++ ls.flatMap (m ++ ·)) = line :: ls.map (m ++ ·)) :
    splitLines ((splitLines l).flatMap (m ++ ·)) = (splitLines l).map (m ++ ·) := by
  cases hl : splitLines l with
  | nil => rfl
  | cons line ls =>
    rw [List.flatMap_cons, List.append_assoc]
    exact splitLines_margin hm (h hl)

/-- The first line has no margin here, so that a character can be put in front of it. -/
theorem splitLines_tail (hm : ∀ c ∈ m, isLineBreak c = false) (h : splitLines l = line :: ls) :
    splitLines (line ++ ls.flatMap (m ++ ·)) = line :: ls.map (m ++ ·) := by
  fun_induction splitLines l generalizing line ls with
  | case1 => cases h
  | case2 l ih =>
    cases h
    exact congrArg _ (splitLines_flatMap_of_tail hm ih)
  | case3 c l hnot hbreak ih =>
    cases h
    have hhead : ¬ (c = '\r' ∧ ((splitLines l).flatMap (m ++ ·)).head? = some '\n') := by
      rintro ⟨rfl, hhead⟩
      cases m with
      | nil =>
        rw [show (splitLines l).flatMap ([] ++ ·) = (splitLines l).flatten from List.flatMap_id',
          flatten_splitLines] at hhead
        obtain ⟨l', rfl⟩ := List.head?_eq_some_iff.mp hhead
        exact hnot l' rfl rfl
      | cons d m =>
        have hd := hm d List.mem_cons_self
        cases hl : splitLines l with
        | nil =>
          rw [hl] at hhead
          cases hhead
        | cons line ls =>
          rw [hl] at hhead
          cases hhead
          cases hd
    rw [List.singleton_append, splitLines_cons hhead, if_pos hbreak, splitLines_flatMap_of_tail hm ih]
  | case4 c l hnot hbreak ih =>
    have hcons : ∀ rest, splitLines (c :: rest) = pushFront c (splitLines rest) := by
      intro rest
      rw [splitLines_cons (by rintro ⟨rfl, -⟩; exact hbreak rfl), if_neg hbreak]
    cases hl : splitLines l with
    | nil =>
      rw [hl] at h
      cases h
      exact hcons []
    | cons line' ls' =>
      rw [hl] at h
      cases h
      rw [List.cons_append, hcons, ih hl]
      rfl

/-- **The lines of a text with a margin** are its lines with the margin. -/
theorem splitLines_prefixLines {margin : String} (hm : ∀ c ∈ margin.toList, isLineBreak c = false)
    (s : String) : splitLines (prefixLines s margin).toList = (splitLines s.toList).map (margin.toList ++ ·) := by
  rw [prefixLines, String.toList_ofList]
  exact splitLines_flatMap_of_tail hm (splitLines_tail hm)

theorem prefix_head_iff {p : List Char} (hp : ∀ c ∈ p, isLineBreak c = false)
    (h : splitLines (l ++ ['\n']) = line :: ls) : p <+: line ↔ p <+: l := by
  constructor
  · intro hline
    have hl : line <+: l ++ ['\n'] := ⟨ls.flatten, by rw [← flatten_splitLines (l ++ _), h]; rfl⟩
    refine (List.prefix_concat_iff.mp (hline.trans hl)).resolve_left fun heq => ?_
    have hn := hp '\n' (by simp [heq])
    cases hn
  · rintro ⟨t, rfl⟩
    obtain ⟨line', ls', h'⟩ := List.exists_cons_of_ne_nil (splitLines_ne_nil (l := t ++ ['\n']) (by simp))
    rw [List.append_assoc, splitLines_margin hp h'] at h
    cases h
    exact List.prefix_append _ _

/-- **The lines of a row behind its first one** are what its breaks leave open. -/
theorem forall_tail_iff {p : List Char} (hp : ∀ c ∈ p, isLineBreak c = false) (hl : '\n' ∉ l)
    (hlast : l.getLast? ≠ some '\r') : (∀ line ∈ (splitLines (l ++ ['\n'])).tail, p <+: line)
      ↔ ∀ before c rest, l = before ++ c :: rest → isLineBreak c = true → p <+: rest := by
  induction l with
  | nil => simp [splitLines, isLineBreak]
  | cons d l ih =>
    rw [List.mem_cons, not_or] at hl
    have hrest : (∀ before c rest, d :: l = before ++ c :: rest → isLineBreak c = true → p <+: rest)
        ↔ (isLineBreak d = true → p <+: l)
          ∧ ∀ before c rest, l = before ++ c :: rest → isLineBreak c = true → p <+: rest := by
      refine ⟨fun h => ⟨h [] d l rfl, fun a c b heq => h (d :: a) c b (heq ▸ rfl)⟩, ?_⟩
      rintro ⟨hd, h⟩ (_ | ⟨_, a⟩) c b heq
      · cases heq
        exact hd
      · cases heq
        exact h a c b rfl
    have hhead : ¬ (d = '\r' ∧ (l ++ ['\n']).head? = some '\n') := by
      rintro ⟨rfl, hhead⟩
      cases l with
      | nil => exact hlast rfl
      | cons e l => exact hl.2 (Option.some.inj hhead ▸ List.mem_cons_self)
    have ih := ih hl.2 fun h => hlast (by rw [List.getLast?_cons, h]; rfl)
    obtain ⟨line, ls, hlines⟩ := List.exists_cons_of_ne_nil (splitLines_ne_nil (l := l ++ ['\n']) (by simp))
    rw [hlines] at ih
    rw [hrest, ← ih, List.cons_append, splitLines_cons hhead, hlines]
    split
    · next hd => simp [hd, prefix_head_iff hp hlines]
    · next hd => simp [hd, pushFront]

end Text

/-- **A remark is contained** if everything behind a line break inside of one of its rows starts with two
slashes again. -/
def Contained (s : String) : Prop :=
  ∀ row ∈ splitOnChar s '\n', ∀ before c rest, (strip row).toList = before ++ c :: rest →
    isLineBreak c = true → ['/', '/'] <+: rest

theorem forall_row_iff {row : List Char} (hrow : '\n' ∉ row) :
    (∀ line ∈ splitLines ("// ".toList ++ trimChars isBlank row ++ ['\n']), ['/', '/'] <+: line)
      ↔ ∀ before c rest, trimChars isBlank row = before ++ c :: rest → isLineBreak c = true →
        ['/', '/'] <+: rest := by
  have hlast : (trimChars isBlank row).getLast? ≠ some '\r' :=
    fun h => absurd (getLast?_trimChars h) (by decide)
  obtain ⟨line, ls, hlines⟩ := List.exists_cons_of_ne_nil
    (splitLines_ne_nil (l := trimChars isBlank row ++ ['\n']) (by simp))
  rw [← forall_tail_iff (by decide) (fun h => hrow (mem_of_mem_trimChars h)) hlast, List.append_assoc,
    splitLines_margin (by decide) hlines, hlines]
  simp

theorem forall_lines_commentLines (s : String) :
    (∀ line ∈ splitLines (commentLines s).toList, ['/', '/'] <+: line) ↔ Contained s := by
  rw [toList_commentLines, splitLines_unrows]
  unfold Contained remarkRows
  split
  · next hs =>
    rw [String.isEmpty_iff.mp hs]
    simp [splitOnChar, splitAt, strip, trimChars, dropTail]
  · simp only [List.forall_mem_flatMap, List.forall_mem_map, String.toList_append]
    refine forall₂_congr fun row hrow => ?_
    obtain ⟨l, hl, rfl⟩ := List.mem_map.mp hrow
    simp only [strip, String.toList_ofList]
    exact forall_row_iff fun hn => (mem_of_mem_splitAt hl hn).2 rfl

/-- **The lines of a remark are comments** exactly if the remark is contained, with a margin and without. -/
theorem comment_lines_iff_contained (s : String) {margin : String}
    (hm : ∀ c ∈ margin.toList, isLineBreak c = false) :
    ((∀ line ∈ splitLines (commentLines s).toList, ['/', '/'] <+: line) ↔ Contained s)
    ∧ ((∀ line ∈ splitLines (prefixLines (commentLines s) margin).toList,
        margin.toList ++ ['/', '/'] <+: line) ↔ Contained s)
    ∧ ((∀ row ∈ splitOnChar s '\n', ∀ c ∈ (strip row).toList, isLineBreak c = false) → Contained s) := by
  refine ⟨forall_lines_commentLines s, ?_, fun h row hrow before c rest heq hc => ?_⟩
  · rw [splitLines_prefixLines hm, ← forall_lines_commentLines]
    simp [List.prefix_append_right_inj]
  · have := h row hrow c (by rw [heq]; simp)
    rw [hc] at this
    cases this

/-- A remark with a carriage return before a line feed, which is cut off with the blanks. -/
theorem comment_lines_iff_contained_two : Contained "stop\r\nturn"
    ∧ ∀ line ∈ splitLines (prefixLines (commentLines "stop\r\nturn") "\t").toList, "\t//".toList <+: line := by
  obtain ⟨-, hiff, hcontained⟩ := @comment_lines_iff_contained "stop\r\nturn" "\t" (by decide)
  have hrows := hcontained (by decide)
  exact ⟨hrows, hiff.mpr hrows⟩

/-- **A carriage return inside of a row ends the comment**: what follows it stands on a line of its own. -/
theorem comment_line_left_open : ¬ (∀ line ∈ splitLines (commentLines "a\rb").toList, ['/', '/'] <+: line)
    ∧ ¬ ∀ line ∈ splitLines (prefixLines (commentLines "a\rb") "  ").toList, "  //".toList <+: line := by
  decide

end NqcBlocks
