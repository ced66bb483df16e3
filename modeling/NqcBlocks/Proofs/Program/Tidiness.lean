import NqcBlocks.Proofs.Nqc.Remark
import NqcBlocks.Proofs.Program.RoundTrip

/-!
# The words of blocks

Whatever a block holds, what is written for it is made of **words**: a number is written with digits and signs,
a choice is one of the kind's options, and a name has the characters of a name. So the expression of a value
has words for leaves (`BlockTree.Sound.worded_reading`), and its text stays inside of a line, does not start
with a blank and does not look like a comment. A remark may hold anything, and is written as rows that start
with `//`.
-/

namespace NqcBlocks

open Nqc Text List String Number

variable {c : Char} {s w : String} {t : BlockTree}

/-! ## Names and numbers -/

theorem isInline_of_isNameChar (h : isNameChar c = true) : isInline c = true := by
  have hc := toNat_of_isNameChar h
  have hne : ∀ d : Char, 122 < d.toNat → c ≠ d := fun d hd hcd => by
    subst hcd
    omega
  have hopen : c ≠ '\x7b' := hne _ (by decide)
  have hclose : c ≠ '\x7d' := hne _ (by decide)
  unfold isInline
  simp only [Bool.and_eq_true, decide_eq_true_eq, bne_iff_ne]
  exact ⟨⟨⟨by omega, by omega⟩, hopen⟩, hclose⟩

theorem inline_of_isName (h : isName s = true) : Inline s :=
  fun _ hc => isInline_of_isNameChar (isNameChar_of_isName h hc)

theorem isInline_of_mem_toDigits {n : Nat} (h : c ∈ Nat.toDigits 10 n) : isInline c = true :=
  isInline_of_isNameChar (isNameChar_of_isDigit (Nat.isDigit_of_mem_toDigits (by decide) (by decide) h)).1

def isNumeral (c : Char) : Bool := c.isDigit || "+-.aefin".toList.contains c

theorem isInline_of_isNumeral (h : isNumeral c = true) : isInline c = true := by
  rcases Bool.or_eq_true_iff.mp h with h | h
  · exact isInline_of_isNameChar (isNameChar_of_isDigit h).1
  · have hsigns : ∀ c ∈ "+-.aefin".toList, isInline c = true := by decide
    exact hsigns c (contains_iff_mem.mp h)

theorem isNumeral_of_mem_toDigits {n : Nat} (h : c ∈ Nat.toDigits 10 n) : isNumeral c = true :=
  Bool.or_eq_true_iff.mpr (.inl (Nat.isDigit_of_mem_toDigits (by decide) (by decide) h))

section Decimals

variable {ds : List Char}

theorem isNumeral_of_mem_replicate {k : Nat} (h : c ∈ List.replicate k '0') : isNumeral c = true := by
  rw [eq_of_mem_replicate h]
  rfl

theorem isNumeral_positional (hds : ∀ c ∈ ds, isNumeral c = true) (position : Int) :
    ∀ c ∈ Double.positional ds position, isNumeral c = true := by
  unfold Double.positional
  split
  · simp only [forall_mem_cons, forall_mem_append]
    exact ⟨rfl, rfl, fun _ => isNumeral_of_mem_replicate, hds⟩
  · split
    · simp only [forall_mem_cons, forall_mem_append]
      exact ⟨⟨hds, fun _ => isNumeral_of_mem_replicate⟩, rfl, rfl, by simp⟩
    · simp only [forall_mem_cons, forall_mem_append]
      exact ⟨fun c hc => hds c (mem_of_mem_take hc), rfl, fun c hc => hds c (mem_of_mem_drop hc)⟩

theorem isNumeral_scientific (hds : ∀ c ∈ ds, isNumeral c = true) (width : Nat) (position : Int) :
    ∀ c ∈ Double.scientific width ds position, isNumeral c = true := by
  have hsign : isNumeral (if position - 1 < 0 then '-' else '+') = true := by split <;> rfl
  unfold Double.scientific Double.paddedDigits
  simp only [forall_mem_cons, forall_mem_append]
  refine ⟨⟨⟨fun c hc => hds c (mem_of_mem_take hc), ?_⟩, rfl, hsign, by simp⟩,
    fun _ => isNumeral_of_mem_replicate, fun _ => isNumeral_of_mem_toDigits⟩
  -- the fraction, which may be empty
  split
  · simp
  · rw [forall_mem_cons]
    exact ⟨rfl, fun c hc => hds c (mem_of_mem_drop hc)⟩

end Decimals

theorem isNumeral_doubleText (d : Double) : ∀ c ∈ d.text.toList, isNumeral c = true := by
  cases d with
  | nan => decide
  | infinite negative => cases negative <;> decide
  | finite negative m e =>
    have hsign : ∀ c ∈ (if negative then ['-'] else []), isNumeral c = true := by
      cases negative <;> decide
    have hdigits : ∀ c ∈ ((Nat.toDigits 10 (Double.shortest m e).digits).reverse.dropWhile
        (· == '0')).reverse, isNumeral c = true := fun c hc =>
      isNumeral_of_mem_toDigits (mem_reverse.mp ((dropWhile_subset _) (mem_reverse.mp hc)))
    intro c hc
    rw [Double.text, toList_ofList, mem_append] at hc
    rcases hc with hc | hc
    · exact hsign c hc
    · split at hc
      · revert c
        decide
      · unfold Double.decimalText at hc
        dsimp only at hc
        split at hc
        · exact isNumeral_positional hdigits _ c hc
        · exact isNumeral_scientific hdigits _ _ c hc

theorem isNumeral_numberText (a : Number) : ∀ c ∈ a.text.toList, isNumeral c = true := by
  cases a with
  | double d => exact isNumeral_doubleText d
  | int n =>
    intro c hc
    rw [text, intText, toList_ofList, mem_append] at hc
    rcases hc with hc | hc
    · split at hc
      · rw [mem_singleton.mp hc]
        rfl
      · cases hc
    · exact isNumeral_of_mem_toDigits hc

/-! ## Words -/

/-- **A word of code**: characters of names and of numbers, not all of which are signs. -/
structure Nqc.IsToken (w : String) : Prop where
  chars : ∀ c ∈ w.toList, (isNameChar c || isNumeral c) = true
  proper : ∃ c ∈ w.toList, c ≠ '+' ∧ c ≠ '-'

instance (w : String) : Decidable (IsToken w) :=
  decidable_of_iff (w.toList.all (fun c => isNameChar c || isNumeral c) = true
      ∧ w.toList.any (fun c => decide (c ≠ '+' ∧ c ≠ '-')) = true)
    ⟨fun h => ⟨List.all_eq_true.mp h.1, by simpa using h.2⟩,
      fun h => ⟨List.all_eq_true.mpr h.chars, by simpa using h.proper⟩⟩

theorem isToken_of_isNameChar (hne : w.toList ≠ []) (h : ∀ c ∈ w.toList, isNameChar c = true) : IsToken w := by
  obtain ⟨c, cs, hw⟩ := exists_cons_of_ne_nil hne
  have hc : c ∈ w.toList := hw ▸ mem_cons_self
  refine ⟨fun c hc => Bool.or_eq_true_iff.mpr (.inl (h c hc)), c, hc, ?_, ?_⟩ <;> rintro rfl <;> cases h _ hc

theorem isToken_of_isName (h : isName w = true) : IsToken w := by
  refine isToken_of_isNameChar (fun hnil => ?_) fun c hc => isNameChar_of_isName h hc
  rw [isName, hnil] at h
  cases h

theorem isToken_word : ∀ w ∈ ["0", "1", "7", "10", "50", "100", "true", "false"] ++ Builtin.sensor.options,
    IsToken w := by decide

theorem exists_mem_doubleText (d : Double) : ∃ c ∈ d.text.toList, c ≠ '+' ∧ c ≠ '-' := by
  cases d with
  | nan => exact ⟨'n', by decide, by decide⟩
  | infinite negative => exact ⟨'i', by cases negative <;> decide, by decide⟩
  | finite negative m e =>
    have hpoint : ∀ (ds : List Char) (position : Int), '.' ∈ Double.positional ds position := by
      intro ds position
      unfold Double.positional
      split
      · simp
      · split <;> simp
    have hexponent : ∀ (width : Nat) (ds : List Char) (position : Int),
        'e' ∈ Double.scientific width ds position := by
      intro width ds position
      simp [Double.scientific]
    have hbody : ∃ c ∈ (if m == 0 then ['0', '.', '0']
        else Double.decimalText Double.layout (Double.shortest m e)), c ≠ '+' ∧ c ≠ '-' := by
      split
      · exact ⟨'0', by decide, by decide⟩
      · unfold Double.decimalText
        dsimp only
        split
        · exact ⟨'.', hpoint _ _, by decide⟩
        · exact ⟨'e', hexponent _ _ _, by decide⟩
    obtain ⟨c, hc, hproper⟩ := hbody
    rw [Double.text, toList_ofList]
    exact ⟨c, mem_append_right _ hc, hproper⟩

theorem isToken_numberText (a : Number) : IsToken a.text := by
  refine ⟨fun c hc => Bool.or_eq_true_iff.mpr (.inr (isNumeral_numberText a c hc)), ?_⟩
  cases a with
  | double d => exact exists_mem_doubleText d
  | int k =>
    obtain ⟨c, hc, hcd⟩ := head?_natText k.natAbs
    rw [natText, toList_ofList] at hc
    refine ⟨c, ?_, ?_, ?_⟩
    · rw [text, intText, toList_ofList]
      exact mem_append_right _ (mem_of_head? hc)
    all_goals
      rintro rfl
      cases hcd

section Words

variable {e : Expr}

theorem isInline_of_isToken (h : IsToken w) (hc : c ∈ w.toList) : isInline c = true :=
  (Bool.or_eq_true_iff.mp (h.chars c hc)).elim isInline_of_isNameChar isInline_of_isNumeral

theorem notMem_of_isToken (hc : (isNameChar c || isNumeral c) = false) (h : IsToken w) : c ∉ w.toList :=
  fun hmem => Bool.false_ne_true (hc.symm.trans (h.chars c hmem))

theorem isBlank_of_isInline (h : isInline c = true) (hne : c ≠ ' ') : isBlank c = false := by
  have hspace : c.toNat ≠ 32 := fun h32 => hne (Char.ext (UInt32.toNat_inj.mp h32))
  unfold isInline at h
  simp only [Bool.and_eq_true, decide_eq_true_eq] at h
  unfold isBlank
  simp only [Bool.or_eq_false_iff, Bool.and_eq_false_iff, decide_eq_false_iff_not, beq_eq_false_iff_ne]
  omega

def Starts (s : String) : Prop := s.toList.head?.any (fun c => !isBlank c) = true

instance (s : String) : Decidable (Starts s) := inferInstanceAs (Decidable (_ = true))

theorem Starts.append (h : Starts s) (s' : String) : Starts (s ++ s') := by
  unfold Starts at h ⊢
  rw [toList_append, head?_append]
  cases hs : s.toList.head? with
  | none =>
    rw [hs] at h
    cases h
  | some c =>
    rw [hs] at h
    exact h

theorem starts_of_isToken (h : IsToken w) : Starts w := by
  obtain ⟨c, hc, -⟩ := h.proper
  obtain ⟨d, rest, hw⟩ := exists_cons_of_ne_nil (ne_nil_of_mem hc)
  have hd : d ∈ w.toList := hw ▸ mem_cons_self
  have hblank := isBlank_of_isInline (isInline_of_isToken h hd) fun hspace =>
    notMem_of_isToken (by decide) h (hspace ▸ hd)
  unfold Starts
  rw [hw, head?_cons, Option.any_some, hblank]
  rfl

def Nqc.Expr.Worded : Expr → Prop
  | .literal w order => IsToken w ∧ order.rank ≤ Order.unaryPrefix.rank
  | .variable w => IsToken w
  | .binary _ l r => l.Worded ∧ r.Worded
  | .negate e | .group e => e.Worded

namespace Nqc.Expr.Worded

theorem atom (hw : IsToken w) : (Expr.atom w).Worded := ⟨hw, by decide⟩

theorem inline (he : e.Worded) : Inline e.text := by
  induction e with
  | literal w o => exact fun c hc => isInline_of_isToken he.1 hc
  | «variable» w => exact fun c hc => isInline_of_isToken he hc
  | binary op l r ihl ihr => exact .binary op (ihl he.1) (ihr he.2)
  | negate e ih => exact (ih he).negate
  | group e ih => exact (ih he).group

theorem sober (he : e.Worded) : Sober e.text := by
  induction e with
  | literal w o => exact sober_of_notMem (notMem_of_isToken (by decide) he.1)
  | «variable» w => exact sober_of_notMem (notMem_of_isToken (by decide) he)
  | binary op l r ihl ihr => exact .binary op (ihl he.1) (ihr he.2)
  | negate e ih => exact (ih he).negate
  | group e ih => exact (ih he).group

theorem starts (he : e.Worded) : Starts e.text := by
  induction e with
  | literal w o => exact starts_of_isToken he.1
  | «variable» w => exact starts_of_isToken he
  | binary op l r ihl ihr =>
    rw [Expr.text, String.append_assoc, String.append_assoc, String.append_assoc]
    exact (ihl he.1).append _
  | negate e ih =>
    rw [Expr.text]
    split
    · exact Starts.append (by decide) _
    · exact (Starts.append (by decide) _).append _
  | group e ih =>
    rw [Expr.text]
    exact (Starts.append (by decide) _).append _

end Nqc.Expr.Worded

end Words

/-! ## Remarks -/

def remarkRows (s : String) : List String :=
  if s.isEmpty then [] else (splitOnChar s '\n').map fun line => "// " ++ strip line

theorem toList_commentLines (s : String) : (commentLines s).toList = unrows ((remarkRows s).map toList) := by
  unfold commentLines remarkRows
  split
  · rfl
  · induction splitOnChar s '\n' with
    | nil => rfl
    | cons line lines ih =>
      have hend : "\n".toList = ['\n'] := rfl
      rw [map_cons, join_cons, toList_append, ih, toList_append, map_cons,
        map_cons, unrows_cons, hend, List.append_assoc, singleton_append]

theorem exists_of_mem_remarkRows {row : String} (h : row ∈ remarkRows s) :
    ∃ line, row = "// " ++ line ∧ ∀ c ∈ line.toList, c ∈ s.toList ∧ c ≠ '\n' := by
  unfold remarkRows at h
  split at h
  · cases h
  · obtain ⟨line, hline, rfl⟩ := mem_map.mp h
    obtain ⟨l, hl, rfl⟩ := mem_map.mp hline
    refine ⟨_, rfl, fun c hc => ?_⟩
    unfold strip at hc
    rw [toList_ofList, toList_ofList] at hc
    exact mem_of_mem_splitAt hl (mem_of_mem_trimChars hc)

theorem isRemark_of_mem_remarkRows {row : String} (h : row ∈ remarkRows s) : IsRemark row.toList := by
  obtain ⟨line, rfl, hline⟩ := exists_of_mem_remarkRows h
  refine ⟨[], ' ' :: line.toList, ?_, by simp, ?_⟩
  · rw [toList_append]
    rfl
  · rw [mem_cons, not_or]
    exact ⟨by decide, fun hmem => (hline _ hmem).2 rfl⟩

/-! ## Blocks -/

def Spelling.Named (σ : Spelling) : Prop :=
  ∀ (use : NameUse) {name : String}, isName name = true → isName (σ.name use name) = true

theorem Resolver.isName_spell (r : Resolver) (use : NameUse) {name : String}
    (h : isName name = true) : isName (r.spell use name) = true := by
  unfold Resolver.spell
  split
  · exact isName_suffixed h _
  · exact h

section Blocks

variable {n : Node} {spec : BlockSpec} {σ : Spelling} {expr : String → Expr}

theorem Node.Conforms.inline_choice (hc : n.Conforms spec) {f : FieldSpec} (hf : f ∈ spec.fields)
    (hk : f.kind = .dropdown) (hoptions : ∀ o ∈ f.options, Inline o) : Inline (n.text f.name) :=
  hoptions _ (hc.text_mem_options hf hk)

theorem Node.Conforms.default_mem_of_get? (hc : n.Conforms spec) {slot : String} {s : ValueSlot}
    (hs : n.valueSlots.get? slot = some s) : s.default ∈ ["0", "1", "10", "50", "true", "false"] := by
  have hspec := hc.slotSpec hs
  have hknown := hc.known
  cases hk : n.kind <;> rw [hk] at hknown <;> cases hknown <;>
    simp [Builtin.sensorSetup, Builtin.sensorValue, Builtin.power] at hspec
  case conditional => rw [hspec.2]; decide
  case arithmetic | compare | logic =>
    rcases hspec with hspec | hspec <;> rw [hspec.2.2] <;> decide
  all_goals
    rw [hspec.2.2]
    decide

theorem worded_valueExpr (hc : n.Conforms spec) (hval : n.isValue = true) (hσ : σ.Named)
    (hslots : ∀ slot ∈ n.valueSlots.names, (expr slot).Worded) : (valueExpr σ n expr).Worded := by
  have hoperation : n.kind = .arithmetic ∨ n.kind = .compare ∨ n.kind = .logic → (valueExpr σ n expr).Worded := by
    intro hkind
    obtain ⟨op, -, hnames, -, hexpr, -⟩ := hc.operation hkind
    rw [hnames] at hslots
    rw [hexpr]
    exact ⟨hslots "A" (by decide), hslots "B" (by decide)⟩
  have hknown := hc.known
  unfold Node.isValue at hval
  unfold valueExpr at hoperation ⊢
  cases hk : n.kind <;> rw [hk] at hknown hval hoperation <;> cases hknown <;> cases hval
  case arithmetic | compare | logic => exact hoperation (by decide)
  case number | percent =>
    refine ⟨isToken_numberText _, ?_⟩
    split <;> decide
  case boolean =>
    refine .atom (isToken_word _ ?_)
    split <;> decide
  case variableGet =>
    have hname := (hc.identifier mem_cons_self rfl).2.resolve_left fun h => by cases h.2
    exact isToken_of_isName (hσ .variable hname)
  case negate => exact hslots "BOOL" ((hc.slotNames rfl).1 ▸ by decide)
  case group => exact hslots "VALUE" ((hc.slotNames rfl).1 ▸ by decide)
  all_goals exact .atom (isToken_word _ (mem_append_right _
      (hc.text_mem_options (f := Builtin.sensor) (mem_singleton.mpr rfl) rfl)))

end Blocks

/-! ## Trees -/

section Trees

variable {g : Graph} {σ : Spelling}

theorem Node.Fitted.worded_slot {n : Node} {spec : BlockSpec} {operands : Operands}
    {bodies : Bodies} (hn : n.Fitted g spec operands bodies)
    (h : ∀ {slot t}, (slot, some t) ∈ operands → (t.reading σ).expr.Worded) :
    ∀ slot ∈ n.valueSlots.names, (slotExpr n (readings σ operands) slot).Worded := by
  intro slot hslot
  rcases slot_cases σ n hn.nodup_operands slot with ⟨t, hmem, -, hexpr, -⟩ | ⟨hexpr, -⟩ <;> rw [hexpr]
  · exact h hmem
  · have hdefaults : ∀ w ∈ ["0", "1", "10", "50", "true", "false"],
        w ∈ ["0", "1", "7", "10", "50", "100", "true", "false"] ++ Builtin.sensor.options := by decide
    obtain ⟨v, hv⟩ := Table.exists_get?_of_mem_names hslot
    rw [hv]
    exact .atom (isToken_word _ (hdefaults _ (hn.conforms.default_mem_of_get? hv)))

theorem BlockTree.Sound.worded_reading (hσ : σ.Named) (ht : t.Sound g) (hval : t.node.isValue = true) :
    (t.reading σ).expr.Worded := by
  induction ht, hval using BlockTree.Sound.induct_value with
  | value hn hval ih => exact worded_valueExpr hn.conforms hval hσ (hn.worded_slot ih)

end Trees

end NqcBlocks
