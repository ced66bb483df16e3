import Mathlib
import NqcBlocks.Proofs.Nqc.Precedence
import NqcBlocks.Proofs.Program.Silence
import NqcBlocks.Proofs.Program.Tidiness

/-!
# Notes about grouping

Code is written without the parentheses that its operators ask for, and a note is made about each operand
that binds looser than its place. This module says how much the notes tell. A value block stands for a
**formula** (`BlockTree.formula`): a group block for parentheses, a socket with no enabled value for its
default. The text that is written for it reads back as the formula, up to parentheses, exactly if no note
was made and no operation has a right operand of its own class; for such an operand there is no note, though
the text groups to the left.
-/

namespace NqcBlocks.Nqc

open BlockTree

variable {e : Expr} {w : String}

/-! ## Expressions as formulas -/

namespace Formula

def operation? : Formula → Option Order
  | .binary op _ _ => some op.order
  | _ => none

def RightApart : Formula → Prop
  | .leaf _ => True
  | .not f => f.RightApart
  | .binary op l r => l.RightApart ∧ r.RightApart ∧ r.operation? ≠ some op.order
  | .paren f => f.RightApart

end Formula

theorem Order.rank_injective : ∀ {o o' : Order}, o.rank = o'.rank → o = o' := by
  intro o o' h
  cases o <;> cases o' <;> first | rfl | cases h

theorem Order.needsGrouping_none (o : Order) : o.needsGrouping .none = false := by
  cases o <;> decide

theorem Order.needsGrouping_eq_false {o required : Order} :
    o.needsGrouping required = false ↔ o.rank ≤ required.rank := by
  rw [Order.needsGrouping, decide_eq_false_iff_not, Nat.not_lt]

namespace Expr

def formula : Expr → Formula
  | .literal w _ | .variable w => .leaf w
  | .binary op l r => .binary op l.formula r.formula
  | .negate e => .not e.formula
  | .group e => .paren e.formula

def writtenFormula : Expr → Formula
  | .literal w _ | .variable w => .leaf w
  | .binary op l r => .binary op l.writtenFormula r.writtenFormula
  | .negate e =>
    .not (if e.order = .atomic then e.writtenFormula else .paren e.writtenFormula)
  | .group e => .paren e.writtenFormula

theorem text_writtenFormula (e : Expr) : e.writtenFormula.text = e.text := by
  induction e with
  | literal w o => rfl
  | «variable» w => rfl
  | binary op l r ihl ihr => rw [writtenFormula, Formula.text, text, ihl, ihr]
  | negate e ih =>
    rw [writtenFormula, Formula.text, text]
    split
    · rw [ih]
    · rw [Formula.text, ih, ← String.append_assoc, ← String.append_assoc]
      rfl
  | group e ih => rw [writtenFormula, Formula.text, text, ih]

theorem bare_writtenFormula (e : Expr) : e.writtenFormula.bare = e.formula.bare := by
  induction e with
  | literal w o => rfl
  | «variable» w => rfl
  | binary op l r ihl ihr => rw [writtenFormula, formula, Formula.bare, Formula.bare, ihl, ihr]
  | negate e ih =>
    rw [writtenFormula, formula, Formula.bare, Formula.bare]
    split
    · rw [ih]
    · rw [Formula.bare, ih]
  | group e ih => exact ih

def Tight : Expr → Prop
  | .literal _ _ | .variable _ => True
  | .binary op l r => l.Tight ∧ r.Tight
    ∧ l.order.needsGrouping op.order = false ∧ r.order.needsGrouping op.order = false
  | .negate e | .group e => e.Tight

theorem isLeaf_of_isToken (h : IsToken w) : Formula.IsLeaf w := by
  have hinside : ∀ c ∈ " ()!=".toList, (isNameChar c || isNumeral c) = false := by decide
  have hsigns : ∀ c ∈ Formula.signChars, (isNameChar c || isNumeral c) = true → c = '+' ∨ c = '-' := by decide
  obtain ⟨c, hc, hplus, hminus⟩ := h.proper
  refine ⟨fun c hc hmem => Bool.false_ne_true ((hinside c hmem).symm.trans (h.chars c hc)), c, hc, fun hmem => ?_⟩
  exact (hsigns c hmem (h.chars c hc)).elim hplus hminus

theorem Worded.lexical (he : e.Worded) : e.writtenFormula.Lexical := by
  induction e with
  | literal w o => exact isLeaf_of_isToken he.1
  | «variable» w => exact isLeaf_of_isToken he
  | binary op l r ihl ihr => exact ⟨ihl he.1, ihr he.2⟩
  | negate e ih =>
    show (if e.order = .atomic then e.writtenFormula else .paren e.writtenFormula).Lexical
    split <;> exact ih he
  | group e ih => exact ih he

theorem Worded.order_cases (he : e.Worded) :
    (∃ op : Operator, e.order = op.order ∧ e.writtenFormula.level = op.order.rank
        ∧ e.formula.operation? = some op.order)
      ∨ e.order.rank ≤ Order.unaryPrefix.rank
        ∧ e.writtenFormula.level ≤ Order.unaryPrefix.rank ∧ e.formula.operation? = none := by
  cases e with
  | literal w o => exact .inr ⟨he.2, Nat.zero_le _, rfl⟩
  | «variable» w => exact .inr ⟨Nat.zero_le _, Nat.zero_le _, rfl⟩
  | binary op l r => exact .inl ⟨op, rfl, rfl, rfl⟩
  | negate e => exact .inr ⟨Nat.le_refl _, Nat.le_refl _, rfl⟩
  | group e => exact .inr ⟨Nat.zero_le _, Nat.zero_le _, rfl⟩

theorem Worded.level_le_iff (he : e.Worded) (op : Operator) :
    e.writtenFormula.level ≤ op.order.rank ↔ e.order.needsGrouping op.order = false := by
  have hop := op.three_le_rank
  rw [Order.needsGrouping_eq_false]
  rcases he.order_cases with ⟨op', horder, hlevel, -⟩ | ⟨horder, hlevel, -⟩
  · rw [horder, hlevel]
  · have htwo : Order.unaryPrefix.rank = 2 := rfl
    constructor <;> intro _ <;> omega

theorem Worded.level_lt_iff (he : e.Worded) (op : Operator) : e.writtenFormula.level < op.order.rank
      ↔ e.order.needsGrouping op.order = false ∧ e.formula.operation? ≠ some op.order := by
  have hop := op.three_le_rank
  rw [Order.needsGrouping_eq_false]
  rcases he.order_cases with ⟨op', horder, hlevel, hclass⟩ | ⟨horder, hlevel, hclass⟩
  · rw [horder, hlevel, hclass, Nat.lt_iff_le_and_ne, ne_eq, ne_eq, Option.some.injEq]
    exact and_congr_right fun _ => not_congr ⟨Order.rank_injective, congrArg Order.rank⟩
  · have htwo : Order.unaryPrefix.rank = 2 := rfl
    rw [hclass]
    refine ⟨fun _ => ⟨by omega, (Option.some_ne_none _).symm⟩, fun _ => by omega⟩

theorem Worded.canonical_iff (he : e.Worded) : e.writtenFormula.Canonical ↔ e.Tight ∧ e.formula.RightApart := by
  induction e with
  | literal w o => exact ⟨fun _ => ⟨trivial, trivial⟩, fun _ => trivial⟩
  | «variable» w => exact ⟨fun _ => ⟨trivial, trivial⟩, fun _ => trivial⟩
  | binary op l r ihl ihr =>
    show _ ∧ _ ∧ _ ∧ _ ↔ (_ ∧ _ ∧ _ ∧ _) ∧ _ ∧ _ ∧ _
    rw [ihl he.1, ihr he.2, he.1.level_le_iff, he.2.level_lt_iff]
    tauto
  | negate e ih =>
    have hinner : e.Worded := he
    rw [writtenFormula, Formula.Canonical, Tight, formula, Formula.RightApart, ← ih hinner]
    split
    case isTrue hatomic =>
      -- an atom is no operation, and so its formula is not one either
      have hlevel : e.writtenFormula.level ≤ Order.unaryPrefix.rank := by
        rcases hinner.order_cases with ⟨op, horder, -⟩ | ⟨-, hlevel, -⟩
        · rw [hatomic] at horder
          cases op <;> cases horder
        · exact hlevel
      exact and_iff_left hlevel
    case isFalse => exact and_iff_left (Nat.zero_le _)
  | group e ih => exact ih he

theorem Worded.readsBack_iff (he : e.Worded) :
    Formula.ReadsBack e.text e.formula ↔ e.Tight ∧ e.formula.RightApart := by
  rw [← text_writtenFormula, Formula.readsBack_iff he.lexical (bare_writtenFormula e), he.canonical_iff]

theorem Worded.readsBack_times (he : e.Worded) (hw : IsToken w) :
    Formula.ReadsBack (binary .multiply e (.atom w)).text (.binary .multiply e.formula (.leaf w))
      ↔ e.order.needsGrouping .multiplicative = false ∧ Formula.ReadsBack e.text e.formula := by
  have hproduct : (binary .multiply e (.atom w)).Worded := ⟨he, .atom hw⟩
  rw [he.readsBack_iff]
  refine hproduct.readsBack_iff.trans ?_
  show (_ ∧ True ∧ _ ∧ Order.needsGrouping .atomic .multiplicative = false)
    ∧ _ ∧ True ∧ none ≠ some Order.multiplicative ↔ _
  simp only [show Order.needsGrouping .atomic .multiplicative = false from rfl, ne_eq, reduceCtorEq,
    not_false_eq_true, and_true, true_and]
  tauto

theorem Worded.readsBack_fraction (he : e.Worded) {v : String} (hw : IsToken w) (hv : IsToken v) :
    Formula.ReadsBack (group (binary .divide (binary .multiply e (.atom w)) (.atom v))).text
        (.paren (.binary .divide (.binary .multiply e.formula (.leaf w)) (.leaf v)))
      ↔ e.order.needsGrouping .multiplicative = false ∧ Formula.ReadsBack e.text e.formula := by
  have hfraction : (group (binary .divide (binary .multiply e (.atom w)) (.atom v))).Worded :=
    ⟨⟨he, .atom hw⟩, .atom hv⟩
  rw [he.readsBack_iff]
  refine hfraction.readsBack_iff.trans ?_
  show ((_ ∧ True ∧ _ ∧ Order.needsGrouping .atomic .multiplicative = false) ∧ True
      ∧ Order.needsGrouping .multiplicative .multiplicative = false
      ∧ Order.needsGrouping .atomic .multiplicative = false)
    ∧ (_ ∧ True ∧ none ≠ some Order.multiplicative) ∧ True ∧ none ≠ some Order.multiplicative ↔ _
  simp only [show Order.needsGrouping .atomic .multiplicative = false from rfl,
    show Order.needsGrouping .multiplicative .multiplicative = false from rfl, ne_eq, reduceCtorEq,
    not_false_eq_true, and_true, true_and]
  tauto

end Expr

end NqcBlocks.Nqc

namespace NqcBlocks

variable {e : Expr} {w : String} {t : BlockTree} {g : Graph}

open Nqc Gen

/-! ## Blocks as formulas -/

def valueFormula (σ : Spelling) (n : Node) (value : String → Formula) : Formula :=
  match n.kind with
  | .number | .percent => .leaf (n.number "NUM").code
  | .boolean => .leaf (if n.text "BOOL" == "TRUE" then "true" else "false")
  | .touchValue | .lightValue | .rotationValue | .temperatureValue => .leaf (n.text "SENSOR")
  | .variableGet => .leaf (σ.name .variable (n.text "VAR"))
  | .arithmetic | .compare | .logic =>
    .binary (n.operation?.getD default) (value "A") (value "B")
  | .negate => .not (value "BOOL")
  | .group => .paren (value "VALUE")
  | _ => .leaf ""

def slotFormula (n : Node) (values : List (String × Option Formula)) (slot : String) : Formula :=
  (Table.get? slot values).join.getD (.leaf (((n.valueSlots.get? slot).map (·.default)).getD ""))

mutual
def BlockTree.formula (σ : Spelling) : BlockTree → Formula
  | .mk n _ operands _ => valueFormula σ n (slotFormula n (operandFormulas σ operands))
def operandFormulas (σ : Spelling) :
    Operands → List (String × Option Formula)
  | [] => []
  | (slot, none) :: rest => (slot, none) :: operandFormulas σ rest
  | (slot, some t) :: rest =>
    (slot, if t.node.enabled then some (t.formula σ) else none) :: operandFormulas σ rest
end

def BlockTree.operandFormula (σ : Spelling) (t : BlockTree) (slot : String) : Formula :=
  slotFormula t.node (operandFormulas σ t.operands) slot

/-! ## What is written for blocks -/

/-- **An expression renders a formula** with some notes: the notes are missing exactly if the expression is
tight. -/
structure Renders (f : Formula) (e : Expr) (notes : List CodeNote) : Prop where
  formula : e.formula = f
  tight : notes = [] ↔ e.Tight

structure RendersIn (f : Formula) (e : Expr) (notes : Order → List CodeNote) : Prop where
  formula : e.formula = f
  tight : ∀ required, notes required = [] ↔ e.Tight ∧ e.order.needsGrouping required = false

theorem Renders.readsBack_iff {f : Formula} {notes : List CodeNote} (h : Renders f e notes) (he : e.Worded) :
    Formula.ReadsBack e.text f ↔ notes = [] ∧ f.RightApart := by
  rw [h.tight, ← h.formula]
  exact he.readsBack_iff

section Node

variable {n : Node} {spec : BlockSpec} {σ : Spelling} {formula : String → Formula}
  {expr : String → Expr} {notes : String → Order → List CodeNote}

theorem renders_valueExpr (hc : n.Conforms spec) (hval : n.isValue = true)
    (hslots : ∀ slot ∈ n.valueSlots.names, RendersIn (formula slot) (expr slot) (notes slot)) :
    Renders (valueFormula σ n formula) (valueExpr σ n expr) (valueNotes n notes) := by
  have hoperation : n.kind = .arithmetic ∨ n.kind = .compare ∨ n.kind = .logic →
      Renders (valueFormula σ n formula) (valueExpr σ n expr) (valueNotes n notes) := by
    intro hkind
    obtain ⟨op, hop, hnames, -, hexpr, hnotes⟩ := hc.operation hkind
    rw [hnames] at hslots
    have hA := hslots "A" (by decide)
    have hB := hslots "B" (by decide)
    have hformula : valueFormula σ n formula = .binary op (formula "A") (formula "B") := by
      unfold valueFormula
      rcases hkind with hk | hk | hk <;> rw [hk, hop] <;> rfl
    rw [hexpr, hnotes, hformula]
    refine ⟨?_, ?_⟩
    · rw [Expr.formula, hA.formula, hB.formula]
    · rw [binaryNotes, List.append_eq_nil_iff, hA.tight, hB.tight, Expr.Tight]
      tauto
  have hinner : ∀ {slot}, slot ∈ n.valueSlots.names → (notes slot .none = [] ↔ (expr slot).Tight) := fun hslot =>
    ((hslots _ hslot).tight .none).trans (and_iff_left (Order.needsGrouping_none _))
  have hknown := hc.known
  unfold Node.isValue at hval
  unfold valueExpr valueFormula valueNotes at hoperation ⊢
  cases hk : n.kind <;> rw [hk] at hknown hval hoperation <;> cases hknown <;> cases hval
  case arithmetic | compare | logic => exact hoperation (by decide)
  case negate =>
    have hslot : "BOOL" ∈ n.valueSlots.names := (hc.slotNames rfl).1 ▸ by decide
    exact ⟨congrArg Formula.not (hslots _ hslot).formula, hinner hslot⟩
  case group =>
    have hslot : "VALUE" ∈ n.valueSlots.names := (hc.slotNames rfl).1 ▸ by decide
    exact ⟨congrArg Formula.paren (hslots _ hslot).formula, hinner hslot⟩
  all_goals exact ⟨rfl, fun _ => trivial, fun _ => rfl⟩

theorem rendersIn_slotExpr {operands : Operands} {bodies : Bodies} (hn : n.Fitted g spec operands bodies)
    (h : ∀ {slot t}, (slot, some t) ∈ operands → Renders (t.formula σ) (t.reading σ).expr (t.reading σ).notes) :
    ∀ slot ∈ n.valueSlots.names, RendersIn (slotFormula n (operandFormulas σ operands) slot)
      (slotExpr n (readings σ operands) slot) (slotNotes n (readings σ operands) slot) := by
  intro slot hslot
  obtain ⟨o, ho⟩ := Table.exists_get?_of_mem_names (hn.operandNames ▸ hslot)
  have hformula : Table.get? slot (operandFormulas σ operands)
      = some ((o.filter (·.node.enabled)).map (·.formula σ)) := by
    rw [get?_operands (F := (·.formula σ)) rfl (fun _ _ => by rw [operandFormulas])
      (fun _ _ _ => by rw [operandFormulas]), ho]
    rfl
  unfold slotExpr slotNotes slotFormula
  rw [get?_readings, ho, hformula, Option.map_some]
  cases hfilter : o.filter (·.node.enabled) with
  | none =>
    exact ⟨rfl, fun required => ⟨fun _ => ⟨trivial, by cases required <;> rfl⟩, fun _ => rfl⟩⟩
  | some t =>
    obtain ⟨rfl, -⟩ := Option.filter_eq_some_iff.mp hfilter
    have ht := h (Table.mem_of_get? ho)
    refine ⟨ht.formula, fun required => ?_⟩
    show (t.reading σ).notes ++ (if (t.reading σ).expr.order.needsGrouping required
      then [⟨(t.reading σ).node, groupingNote (t.reading σ).expr n.kind slot⟩] else []) = [] ↔ _
    rw [List.append_eq_nil_iff, ht.tight]
    refine and_congr_right fun _ => ?_
    show _ ↔ (t.reading σ).expr.order.needsGrouping required = false
    cases (t.reading σ).expr.order.needsGrouping required <;> simp

end Node

section Trees

variable {σ : Spelling}

theorem BlockTree.Sound.renders (ht : t.Sound g) (hval : t.node.isValue = true) :
    Renders (t.formula σ) (t.reading σ).expr (t.reading σ).notes := by
  induction ht, hval using BlockTree.Sound.induct_value with
  | value hn hval ih =>
    rw [formula, reading]
    exact renders_valueExpr hn.conforms hval (rendersIn_slotExpr hn ih)

end Trees

/-! ## Rendering -/

namespace Gen

variable {α β : Type} {r : Resolver}

def Gives (r : Resolver) (x : Gen α) (a : α) (notes : List CodeNote) : Prop :=
  ∀ c d b, r.Sound c.names → exec x c = (.ok b, d) →
    b = a ∧ d.notes = c.notes ++ notes ∧ r.Sound d.names

namespace Gives

variable {x : Gen α} {f : α → Gen β} {a : α} {b : β} {N M : List CodeNote}

theorem pure (a : α) : Gives r (pure a) a [] := by
  intro c d b hc h
  cases h
  exact ⟨rfl, (List.append_nil _).symm, hc⟩

theorem bind (hx : Gives r x a N) (hf : Gives r (f a) b M) : Gives r (x >>= f) b (N ++ M) := by
  intro c d b' hc h
  obtain ⟨e, he, -⟩ | ⟨a', c', hexec, hrest⟩ := exec_bind_cases h
  · cases he
  · obtain ⟨rfl, hnotes, hc'⟩ := hx _ _ _ hc hexec
    obtain ⟨rfl, hnotes', hd⟩ := hf _ _ _ hc' hrest
    exact ⟨rfl, by rw [hnotes', hnotes, List.append_assoc], hd⟩

theorem bind_pure {k : α → β} (hx : Gives r x a N) : Gives r (x >>= fun a => Pure.pure (k a)) (k a) N := by
  have h : Gives r (x >>= fun a => Pure.pure (k a)) (k a) (N ++ []) := hx.bind (pure (k a))
  rwa [List.append_nil] at h

theorem of_exec (h : ∀ c, exec x c = (.ok a, { c with notes := c.notes ++ N })) : Gives r x a N := by
  intro c d b hc hexec
  cases hexec.symm.trans (h c)
  exact ⟨rfl, rfl, hc⟩

theorem of_ends {U : Set ReservedNameError} (h : ∀ c, Ends g r x c U a c) : Gives r x a [] := by
  intro c d b hc hexec
  rcases (h c c.names hc).2 with ⟨-, names', hnames', heq⟩ | ⟨u, -, -, d', heq, -⟩ | ⟨n, -, -, d', heq, -⟩
  · cases hexec.symm.trans heq
    exact ⟨rfl, (List.append_nil _).symm, hnames'⟩
  · cases hexec.symm.trans heq
  · cases hexec.symm.trans heq

theorem discard_register (name : Name) : Gives r (discard (register name)) () [] := by
  intro c d b hc h
  have hmap : exec (register name >>= fun _ => Pure.pure ()) c = (.ok b, d) := h
  obtain ⟨e, he, -⟩ | ⟨a, c', hexec, hrest⟩ := exec_bind_cases hmap
  · cases he
  · cases hrest
    rw [register, exec_get_bind] at hexec
    rw [List.append_nil]
    cases hscope : c.scope with
    | none =>
      rw [hscope] at hexec
      cases hexec
    | some scope =>
      rw [hscope] at hexec
      cases hregister : scope.register name with
      | error cause =>
        simp only [hregister] at hexec
        cases hexec
      | ok registered =>
        simp only [hregister] at hexec
        cases hexec
        exact ⟨rfl, rfl, hc⟩

theorem useVariable (name : String) : Gives r (useVariable name) (r.spell .variable name) [] := by
  have hresolve : Gives r (resolve .variable name) (r.spell .variable name) [] :=
    .of_ends fun _ => ends_resolve (g := default) .variable name
  unfold Gen.useVariable
  exact hresolve.bind (discard_register _).bind_pure

end Gives

end Gen

def Resolver.spelling (r : Resolver) : Spelling := ⟨r.spell, fun _ => ""⟩

section Values

variable {r : Resolver} {n : Node} {value : String → Order → Gen Expr} {expr : String → Expr}
  {notes : String → Order → List CodeNote}

theorem gives_binaryCode (h : ∀ slot required, Gives r (value slot required) (expr slot) (notes slot required))
    (op : Operator) : Gives r (binaryCode value op) (.binary op (expr "A") (expr "B")) (binaryNotes op notes) :=
  (h "A" op.order).bind (h "B" op.order).bind_pure

theorem gives_valueCode (hval : n.isValue = true)
    (h : ∀ slot required, Gives r (value slot required) (expr slot) (notes slot required)) :
    Gives r (valueCode n value) (valueExpr r.spelling n expr) (valueNotes n notes) := by
  unfold Node.isValue at hval
  unfold valueCode valueExpr valueNotes
  cases hk : n.kind <;> rw [hk] at hval <;> cases hval
  case arithmetic | compare | logic => exact gives_binaryCode h _
  case variableGet => exact (Gives.useVariable _).bind_pure
  case negate => exact (h "BOOL" .none).bind_pure
  case group => exact (h "VALUE" .none).bind_pure
  all_goals exact .pure _

theorem gives_slotCode {operands : Operands} (h : ∀ {slot t}, (slot, some t) ∈ operands →
      Gives r t.valueCode (t.reading r.spelling).expr (t.reading r.spelling).notes)
    (slot : String) (required : Order) :
    Gives r (slotCode n true (occupantsOf operands) slot required) (slotExpr n (readings r.spelling operands) slot)
      (slotNotes n (readings r.spelling operands) slot required) := by
  unfold slotCode slotExpr slotNotes
  rw [get?_occupantsOf, get?_readings]
  -- there is no such socket, it is empty, it holds a disabled value or an enabled one
  rcases hget : Table.get? slot operands with _ | _ | t
  · intro c d b hc hexec
    cases hexec
  · exact .pure _
  · cases hen : t.node.enabled with
    | false =>
      simp only [Option.map_some, Option.filter_some, hen]
      exact .pure _
    | true =>
      have hnode : (t.reading r.spelling).node = t.node.handle := by
        cases t
        rfl
      simp only [Option.map_some, Option.filter_some, hen, if_true, Bool.not_true, Bool.false_eq_true,
        if_false, hnode]
      refine (h (Table.mem_of_get? hget)).bind ?_
      split
      · exact Gives.bind_pure (Gives.of_exec fun _ => rfl)
      · exact .pure _

theorem BlockTree.Sound.gives_valueCode (ht : t.Sound g) (hval : t.node.isValue = true) :
    Gives r t.valueCode (t.reading r.spelling).expr (t.reading r.spelling).notes := by
  induction ht, hval using BlockTree.Sound.induct_value with
  | value hn hval ih =>
    rw [valueCode, reading]
    exact NqcBlocks.gives_valueCode hval (gives_slotCode ih)

theorem BlockTree.Sound.exec_code (ht : t.Sound g) (hen : t.node.enabled = true) {slot : String}
    {required : Order} (k : Expr → List Stmt)
    (hslot : ∀ {spec}, t.node.Conforms spec → slot ∈ t.node.valueSlots.names) (hcode : ∀ needs value body,
      statementCode t.node needs value body = (do pure (k (← value slot required)))) {c d : Context}
    {stmts : List Stmt} (hc : r.Sound c.names) (h : exec (t.code g.catalog) c = (.ok stmts, d)) :
    ∃ x notes, stmts = withComments t.remarks (k x) ∧ d.notes = c.notes ++ notes required
      ∧ x.Worded ∧ RendersIn (t.operandFormula r.spelling slot) x notes := by
  have hσ : r.spelling.Named := r.isName_spell
  have hcomments : Gives r t.comments t.remarks [] := .of_ends ht.ends_comments
  induction ht with
  | @block n spec operands bodies hn _ _ =>
    have hgives : Gives r (slotCode n true (occupantsOf operands) slot required) _ _ :=
      gives_slotCode (fun hmem => (hn.operand hmem).gives_valueCode (hn.isValue hmem)) slot required
    rw [code, if_pos (show n.enabled = true from hen),
      show ∀ needs value body, statementCode n needs value body = _ from hcode] at h
    obtain ⟨rfl, hnotes, -⟩ := hcomments.bind hgives.bind_pure.bind_pure c d stmts hc h
    exact ⟨_, _, rfl, hnotes, hn.worded_slot (fun hmem => (hn.operand hmem).worded_reading hσ (hn.isValue hmem)) slot
        (hslot hn.conforms),
      rendersIn_slotExpr hn (fun hmem => (hn.operand hmem).renders (hn.isValue hmem)) slot (hslot hn.conforms)⟩

end Values

/-! ## Exactness -/

theorem mem_withComments {comments : String} {stmts : List Stmt} {s : Stmt} (h : s ∈ stmts) :
    s ∈ withComments comments stmts := by
  unfold withComments
  split
  · exact h
  · exact List.mem_cons_of_mem _ h

theorem RendersIn.scaled_iff {f : Formula} {notes : Order → List CodeNote} (h : RendersIn f e notes) (he : e.Worded) :
    notes .multiplicative = [] ∧ Formula.ReadsBack e.text f
      ↔ e.order.needsGrouping .multiplicative = false ∧ Formula.ReadsBack e.text e.formula := by
  rw [h.tight, ← h.formula, he.readsBack_iff]
  tauto

namespace Graph

/-- **The notes about grouping are exact.** The text of a value reads back as its formula, up to
parentheses, exactly if no note was made while it was written and no operation in it has a right operand of
its own class. Where a statement multiplies a value in the text, the text reads as the product of that value
exactly if no note was made and the value by itself reads back. -/
theorem grouping_notes_exact (hg : g.Reachable) {policy : ReservedPolicy} {c d : Context}
    (hc : (g.resolver policy).Sound c.names) {n : Node} (hn : n ∈ g.nodes) :
    let σ := (g.resolver policy).spelling
    let t := g.tree n
    (∀ e, n.isValue = true → exec t.valueCode c = (.ok e, d) →
      ∃ made, d.notes = c.notes ++ made
        ∧ (Formula.ReadsBack e.text (t.formula σ) ↔ made = [] ∧ (t.formula σ).RightApart))
    ∧ (∀ stmts, n.kind = .waitSeconds → n.enabled = true →
      exec (t.code g.catalog) c = (.ok stmts, d) →
      ∃ x made, .call "Wait" [.binary .multiply x (.atom "100")] ∈ stmts
        ∧ d.notes = c.notes ++ made
        ∧ (Formula.ReadsBack (x.text ++ " * 100")
            (.binary .multiply (t.operandFormula σ "SECONDS") (.leaf "100"))
          ↔ made = [] ∧ Formula.ReadsBack x.text (t.operandFormula σ "SECONDS")))
    ∧ ∀ stmts, n.kind = .setPower ∨ n.kind = .motorOnWithPower → n.enabled = true →
      exec (t.code g.catalog) c = (.ok stmts, d) →
      ∃ x made, .call "SetPower" [.atom (n.text "MOTOR"), .group (.binary .divide
          (.binary .multiply x (.atom "7")) (.atom "100"))] ∈ stmts
        ∧ d.notes = c.notes ++ made
        ∧ (Formula.ReadsBack ("(" ++ (x.text ++ " * 7 / 100") ++ ")") (.paren (.binary .divide
            (.binary .multiply (t.operandFormula σ "POWER") (.leaf "7")) (.leaf "100")))
          ↔ made = [] ∧ Formula.ReadsBack x.text (t.operandFormula σ "POWER")) := by
  intro σ t
  have hσ : σ.Named := (g.resolver policy).isName_spell
  have hget := hg.forest.mem_nodes_iff_get?.mp hn
  have hsound : t.Sound g := hg.forest.sound_tree hget
  have hnode : t.node = n := hg.forest.node_tree hget
  refine ⟨fun e hval hexec => ?_, fun stmts hk hen hexec => ?_, fun stmts hk hen hexec => ?_⟩
  · have hval' : t.node.isValue = true := hnode ▸ hval
    obtain ⟨rfl, hnotes, -⟩ := hsound.gives_valueCode hval' _ _ _ hc hexec
    exact ⟨_, hnotes, (hsound.renders hval').readsBack_iff (hsound.worded_reading hσ hval')⟩
  · rw [← hnode] at hk hen
    have hslot : ∀ {spec}, t.node.Conforms spec → "SECONDS" ∈ t.node.valueSlots.names := by
      intro spec hconforms
      have hknown := hconforms.known
      rw [hk] at hknown
      cases hknown
      rw [(hconforms.slotNames rfl).1]
      decide
    obtain ⟨x, notes, rfl, hnotes, hworded, hx⟩ := hsound.exec_code hen
      (fun x => [.call "Wait" [.binary .multiply x (.atom "100")]]) hslot
      (fun needs value body => by rw [statementCode, hk]; rfl) hc hexec
    have htext : x.text ++ " * 100" = (Expr.binary .multiply x (.atom "100")).text := by
      simp only [Expr.text, String.append_assoc]
      rfl
    refine ⟨x, _, mem_withComments List.mem_cons_self, hnotes, ?_⟩
    rw [hx.scaled_iff hworded, ← hx.formula, htext]
    exact hworded.readsBack_times (isToken_word "100" (by decide))
  · rw [← hnode] at hk hen
    have hslot : ∀ {spec}, t.node.Conforms spec → "POWER" ∈ t.node.valueSlots.names := by
      intro spec hconforms
      have hknown := hconforms.known
      rcases hk with hk | hk <;> rw [hk] at hknown <;> cases hknown <;>
        rw [(hconforms.slotNames rfl).1] <;> decide
    have hpower : ∃ rest, ∀ needs value body, statementCode t.node needs value body
        = (do pure (setPower (t.node.text "MOTOR") (← value "POWER" .multiplicative) :: rest)) := by
      rcases hk with hk | hk
      · exact ⟨[], fun needs value body => by rw [statementCode, hk]⟩
      · exact ⟨[motorOn (t.node.text "MOTOR") (t.node.text "DIRECTION")], fun needs value body => by
          rw [statementCode, hk]⟩
    obtain ⟨rest, hcode⟩ := hpower
    obtain ⟨x, notes, rfl, hnotes, hworded, hx⟩ := hsound.exec_code hen
      (fun x => setPower (t.node.text "MOTOR") x :: rest) hslot hcode hc hexec
    have htext : "(" ++ (x.text ++ " * 7 / 100") ++ ")" = (Expr.group (.binary .divide
        (.binary .multiply x (.atom "7")) (.atom "100"))).text := by
      simp only [Expr.text, String.append_assoc]
      rfl
    rw [← hnode]
    refine ⟨x, _, mem_withComments List.mem_cons_self, hnotes, ?_⟩
    rw [hx.scaled_iff hworded, ← hx.formula, htext]
    exact hworded.readsBack_fraction (isToken_word "7" (by decide)) (isToken_word "100" (by decide))

def sumOfSeconds : Graph :=
  (Editor.run {}
    [.create "wait_seconds" {}, .create "arithmetic" { fields := [("OP", .text "ADD")] },
      .create "number" { fields := [("NUM", .number (.int 1))] },
      .create "number" { fields := [("NUM", .number (.int 2))] },
      .connectValue 2 "A" 3, .connectValue 2 "B" 4, .connectValue 1 "SECONDS" 2]).graph

/-- The text of the sum reads back and there is no note about it; that of the pause, `1 + 2 * 100`, does not
read as the product of the sum, and there is a note. -/
theorem grouping_notes_exact_sum :
    let r := sumOfSeconds.resolver .reject
    let f : Formula := .binary .add (.leaf "1") (.leaf "2")
    r.Sound r ∧ Formula.ReadsBack "1 + 2" f
      ∧ ¬ Formula.ReadsBack "1 + 2 * 100" (.binary .multiply f (.leaf "100")) := by
  intro r f
  have hg : sumOfSeconds.Reachable := reachable_run .empty _
  have hr : r.Sound r := .refl rfl
  have hsum : (sumOfSeconds.get? 2).map (fun n => (n.isValue,
      (exec (sumOfSeconds.tree n).valueCode { names := r }).1.toOption.map Expr.text,
      (exec (sumOfSeconds.tree n).valueCode { names := r }).2.notes,
      (sumOfSeconds.tree n).formula r.spelling)) = some (true, some "1 + 2", [], f) := by
    cbv
  have hpause : (sumOfSeconds.get? 1).map (fun n => (n.kind, n.enabled,
      (exec ((sumOfSeconds.tree n).code sumOfSeconds.catalog) { names := r }).1.toOption,
      (exec ((sumOfSeconds.tree n).code sumOfSeconds.catalog) { names := r }).2.notes.length,
      (sumOfSeconds.tree n).operandFormula r.spelling "SECONDS"))
      = some (.waitSeconds, true, some [.call "Wait" [.binary .multiply
          (.binary .add (.atom "1") (.atom "2")) (.atom "100")]], 1, f) := by
    cbv
  obtain ⟨n, hn, hvalue⟩ := Option.map_eq_some_iff.mp hsum
  obtain ⟨m, hm, hstmt⟩ := Option.map_eq_some_iff.mp hpause
  simp only [Prod.mk.injEq] at hvalue hstmt
  obtain ⟨hval, htext, hnone, hf⟩ := hvalue
  obtain ⟨hk, hen, hstmts, hlength, hoperand⟩ := hstmt
  have hback : Formula.ReadsBack "1 + 2" f := by
    rcases hexec : exec (sumOfSeconds.tree n).valueCode { names := r } with ⟨_ | e, d⟩ <;>
      rw [hexec] at htext hnone
    · cases htext
    · obtain ⟨made, hmade, hiff⟩ := (grouping_notes_exact hg hr (mem_nodes_iff.mpr ⟨2, hn⟩)).1 e hval hexec
      rw [hf, show e.text = "1 + 2" from Option.some.inj htext] at hiff
      refine hiff.mpr ⟨?_, by simp [f, Formula.RightApart, Formula.operation?]⟩
      rw [← List.nil_append made]
      exact hmade.symm.trans hnone
  refine ⟨hr, hback, fun hproduct => ?_⟩
  rcases hexec : exec ((sumOfSeconds.tree m).code sumOfSeconds.catalog) { names := r }
    with ⟨_ | stmts, d⟩ <;> rw [hexec] at hstmts hlength
  · cases hstmts
  · obtain ⟨x, made, hx, hmade, hiff⟩ :=
      (grouping_notes_exact hg hr (mem_nodes_iff.mpr ⟨1, hm⟩)).2.1 stmts hk hen hexec
    rw [show stmts = _ from Option.some.inj hstmts, List.mem_singleton] at hx
    cases hx
    rw [hoperand] at hiff
    obtain ⟨rfl, -⟩ := hiff.mp hproduct
    rw [hmade] at hlength
    cases hlength

end Graph

end NqcBlocks
