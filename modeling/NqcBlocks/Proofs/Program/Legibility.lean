import NqcBlocks.Proofs.Nqc.Writing
import NqcBlocks.Proofs.Program.Description

/-!
# Blocks whose code can be read back

The code of a block shows the statements that the block describes, as long as nothing is lost in the
text: names are written as names, numbers are integers, no operand binds looser than its place asks for,
and no right operand binds only as tightly as its operation. `Legible` says this of one block, apart from
operands that bind too loosely, about which there is a note; without notes the code of a tree of legible
blocks shows what the tree describes (`BlockTree.Sound.shows_value`, `BlockTree.Sound.shows_stmts`).
-/

namespace NqcBlocks

open List Table Number

variable {op : Operator} {e : Expr} {operands : Operands}

namespace Nqc

def Expr.level : Expr → Nat
  | .literal _ order => if order = .atomic then 8 else 7
  | .variable _ => 8
  | .binary op _ _ => op.level
  | .negate _ => 7
  | .group _ => 8

theorem Expr.exists_binary_or_le_level (e : Expr) : (∃ op l r, e = .binary op l r) ∨ 7 ≤ e.level := by
  cases e
  case binary op l r => exact .inl ⟨op, l, r, rfl⟩
  case literal text order =>
    right
    show 7 ≤ if order = .atomic then 8 else 7
    split <;> omega
  all_goals exact .inr (by simp [Expr.level])

theorem Operator.level_le_six (op : Operator) : op.level ≤ 6 := by cases op <;> decide

theorem Expr.level_le_level (h : e.order.needsGrouping op.order = false)
    (hrel : op.order = .relational → e.order ≠ .relational) : op.level ≤ e.level := by
  rcases e.exists_binary_or_le_level with ⟨op', l, r, rfl⟩ | hlevel
  · revert h hrel
    show op'.order.needsGrouping op.order = false
      → (op.order = .relational → op'.order ≠ .relational) → op.level ≤ op'.level
    cases op <;> cases op' <;> decide
  · exact Nat.le_trans op.level_le_six (by omega)

theorem Expr.level_lt_level (h : e.order.needsGrouping op.order = false) (hne : e.order ≠ op.order) :
    op.level < e.level := by
  rcases e.exists_binary_or_le_level with ⟨op', l, r, rfl⟩ | hlevel
  · revert h hne
    show op'.order.needsGrouping op.order = false → op'.order ≠ op.order → op.level < op'.level
    cases op <;> cases op' <;> decide
  · exact Nat.lt_of_le_of_lt op.level_le_six hlevel

theorem Expr.le_level_of_atomic (h : e.order = .atomic) : 7 ≤ e.level := by
  rcases e.exists_binary_or_le_level with ⟨op, l, r, rfl⟩ | hlevel
  · cases op <;> cases h
  · exact hlevel

end Nqc

open Nqc

/-! ## What is in sockets and bodies -/

theorem getD_bodyTrees (σ : Spelling) (bodies : Bodies) (slot : String) :
    (get? slot (bodyTrees σ bodies)).getD [] = chainTrees σ (chainAt bodies slot) :=
  getD_bodies rfl rfl (fun _ _ _ => by rw [bodyTrees]) bodies slot

theorem slot_cases (σ : Spelling) (n : Node) (hnd : (names operands).Nodup) (slot : String) :
    (∃ t, (slot, some t) ∈ operands ∧ t.node.enabled = true
        ∧ slotExpr n (readings σ operands) slot = (t.reading σ).expr
        ∧ (∀ required, slotNotes n (readings σ operands) slot required = (t.reading σ).notes
          ++ if (t.reading σ).expr.order.needsGrouping required
            then [⟨(t.reading σ).node, groupingNote (t.reading σ).expr n.kind slot⟩] else [])
        ∧ slotTree n (operandTrees σ operands) slot = t.valueTree σ)
      ∨ slotExpr n (readings σ operands) slot = .atom (((n.valueSlots.get? slot).map (·.default)).getD "")
        ∧ slotTree n (operandTrees σ operands) slot = n.kind.defaultTree
        ∧ ∀ required, slotNotes n (readings σ operands) slot required = [] := by
  have htree : get? slot (operandTrees σ operands) = (get? slot operands).map fun o =>
      (o.filter (·.node.enabled)).map (·.valueTree σ) :=
    get?_operands rfl (fun _ _ => by rw [operandTrees]) (fun _ _ _ => by rw [operandTrees]) operands slot
  unfold slotExpr slotTree slotNotes
  rw [get?_readings, htree]
  rcases hget : get? slot operands with _ | _ | t
  · exact .inr ⟨rfl, rfl, fun _ => rfl⟩
  · exact .inr ⟨rfl, rfl, fun _ => rfl⟩
  · cases hen : t.node.enabled with
    | false => simp [Option.filter_some, hen]
    | true =>
      refine .inl ⟨t, (get?_eq_some_iff hnd).mp hget, hen, ?_⟩
      simp [Option.filter_some, hen]

section Node

variable {n : Node} {spec : BlockSpec}

variable {slot : String} {σ : Spelling} {expr : String → Expr}

theorem Node.Conforms.shows_default (hc : n.Conforms spec) {s : ValueSlot}
    (hs : n.valueSlots.get? slot = some s) : Shows 8 (.atom s.default) n.kind.defaultTree := by
  have hknown := hc.known
  have hspec := hc.slotSpec hs
  cases hk : n.kind <;> rw [hk] at hknown <;> cases hknown <;>
    simp [Builtin.sensorSetup, Builtin.sensorValue, Builtin.power] at hspec
  case conditional => rw [hspec.2]; exact .truth false
  case waitUntil | negate => rw [hspec.2.2]; exact .truth true
  case repeatUntil => rw [hspec.2.2]; exact .truth false
  case logic =>
    rcases hspec with hspec | hspec <;> rw [hspec.2.2] <;> exact .truth false
  case arithmetic | compare =>
    rcases hspec with hspec | hspec <;> rw [hspec.2.2] <;> exact .nat (by decide)
  all_goals
    rw [hspec.2.2]
    exact .nat (by decide)

theorem Node.Conforms.operation (hc : n.Conforms spec)
    (h : n.kind = .arithmetic ∨ n.kind = .compare ∨ n.kind = .logic) :
    ∃ op, n.operation? = some op ∧ n.valueSlots.names = ["A", "B"]
      ∧ (op.order = .relational → n.kind = .compare)
      ∧ (∀ σ expr, valueExpr σ n expr = .binary op (expr "A") (expr "B"))
      ∧ ∀ notes, valueNotes n notes = binaryNotes op notes := by
  have hknown := hc.known
  unfold Node.operation? valueExpr valueNotes
  rcases h with hk | hk | hk <;> rw [hk] at hknown ⊢ <;> cases hknown <;>
    have hop := hc.text_mem_options (mem_singleton.mpr rfl) rfl <;>
    simp only [Builtin.dropdown, Builtin.arithmeticOptions, Builtin.compareOptions,
      Builtin.logicOptions, mem_cons, not_mem_nil, or_false] at hop
  · rcases hop with hop | hop | hop | hop <;> rw [hop] <;>
      exact ⟨_, rfl, (hc.slotNames rfl).1, by decide, fun _ _ => rfl, fun _ => rfl⟩
  · rcases hop with hop | hop | hop | hop | hop | hop <;> rw [hop] <;>
      exact ⟨_, rfl, (hc.slotNames rfl).1, by decide, fun _ _ => rfl, fun _ => rfl⟩
  · rcases hop with hop | hop <;> rw [hop] <;>
      exact ⟨_, rfl, (hc.slotNames rfl).1, by decide, fun _ _ => rfl, fun _ => rfl⟩

theorem Node.exists_operation_of_order (hc : n.Conforms spec)
    (h : (valueExpr σ n expr).order = op.order) : ∃ op', n.operation? = some op' ∧ op'.order = op.order := by
  by_cases hk : n.kind = .arithmetic ∨ n.kind = .compare ∨ n.kind = .logic
  · obtain ⟨op', hop', -, -, hexpr, -⟩ := hc.operation hk
    rw [hexpr] at h
    exact ⟨op', hop', h⟩
  · have hne : op.order ≠ .atomic ∧ op.order ≠ .unaryPrefix := by cases op <;> decide
    unfold valueExpr at h
    cases hkind : n.kind <;> rw [hkind] at h hk <;> simp at hk
    case number | percent =>
      revert h
      show (if _ then Order.unaryPrefix else .atomic) = _ → _
      split
      · exact fun h => absurd h.symm hne.2
      · exact fun h => absurd h.symm hne.1
    case negate => exact absurd h.symm hne.2
    all_goals exact absurd h.symm hne.1

theorem Node.kind_of_operation (h : n.operation? = some op) :
    n.kind = .arithmetic ∨ n.kind = .compare ∨ n.kind = .logic := by
  unfold Node.operation? at h
  cases hk : n.kind <;> rw [hk] at h <;> simp at h ⊢

theorem Node.Conforms.order_ne_relational (hc : n.Conforms spec) (hk : n.kind = .compare)
    (hslot : slot ∈ n.valueSlots.names) {m : Node} {spec' : BlockSpec}
    (hm : m.Conforms spec') (htakes : n.Takes slot m) :
    (valueExpr σ m expr).order ≠ .relational := by
  intro horder
  obtain ⟨op, hop, hrel⟩ := Node.exists_operation_of_order hm (show _ = Operator.equal.order from horder)
  obtain ⟨op', hop', -, hcompare, -⟩ := hm.operation (Node.kind_of_operation hop)
  rw [hop] at hop'
  cases hop'
  obtain ⟨v, hv⟩ := exists_get?_of_mem_names hslot
  obtain ⟨sort, hsort, hfits⟩ := htakes
  rw [hc.socket?_value hv] at hsort
  cases hsort
  obtain ⟨-, hfits⟩ := hfits
  have hknown := hc.known
  rw [hk] at hknown
  cases hknown
  have hcheck : v.check = .number := by
    have hspec := hc.slotSpec hv
    simp at hspec
    rcases hspec with hspec | hspec <;> exact hspec.2.1
  unfold Node.output at hfits
  rw [hcheck, hcompare hrel] at hfits
  cases hfits

def ShowsSlot (notes : String → Order → List CodeNote) (expr : String → Expr)
    (tree : String → ExprTree) (slot : String) : Prop :=
  ∀ required, notes slot required = [] →
    (expr slot).order.needsGrouping required = false
      ∧ Shows (expr slot).level (expr slot) (tree slot)

variable {σ : Spelling} {notes : String → Order → List CodeNote} {expr : String → Expr}
  {tree : String → ExprTree}

theorem shows_operation (hc : n.Conforms spec) (hop : n.operation? = some op)
    (hslots : ∀ slot ∈ n.valueSlots.names, ShowsSlot notes expr tree slot) (hnotes : valueNotes n notes = [])
    (hleft : op.order = .relational → (expr "A").order ≠ .relational) (hright : (expr "B").order ≠ op.order) :
    Shows (valueExpr σ n expr).level (valueExpr σ n expr) (valueTree σ n tree) := by
  have hkind := Node.kind_of_operation hop
  obtain ⟨op', hop', hnames, -, hexpr, hvnotes⟩ := hc.operation hkind
  rw [hop] at hop'
  cases hop'
  rw [hvnotes, binaryNotes, append_eq_nil_iff] at hnotes
  rw [hnames] at hslots
  obtain ⟨hA, hshowsA⟩ := hslots "A" (by decide) _ hnotes.1
  obtain ⟨hB, hshowsB⟩ := hslots "B" (by decide) _ hnotes.2
  have htree : valueTree σ n tree = .binary op (tree "A") (tree "B") := by
    unfold valueTree
    rcases hkind with hk | hk | hk <;> rw [hk, hop] <;> rfl
  rw [hexpr, htree]
  exact hshowsA.binary hshowsB (Expr.level_le_level hA hleft) (Expr.level_lt_level hB hright)

theorem Node.Conforms.isWord_sensor (hc : n.Conforms spec) (h : Builtin.sensor ∈ spec.fields) :
    IsWord (n.text "SENSOR") := by
  have hmem := hc.text_mem_options h rfl
  simp only [Builtin.sensor, Builtin.dropdown, Builtin.sensorOptions, mem_cons, not_mem_nil, or_false] at hmem
  rcases hmem with h | h | h <;> rw [h] <;> exact ⟨by decide, by decide⟩

theorem shows_valueExpr (hc : n.Conforms spec) (hval : n.isValue = true)
    (hslots : ∀ slot ∈ n.valueSlots.names, ShowsSlot notes expr tree slot)
    (hnotes : valueNotes n notes = []) (hword : ∀ u ∈ n.names, IsWord (σ.name u.use u.name))
    (hint : n.kind = .number ∨ n.kind = .percent → ∃ k : Int, n.fields.get? "NUM" = some (.number (.int k)))
    (hleft : ∀ {op}, n.operation? = some op → op.order = .relational → (expr "A").order ≠ .relational)
    (hright : ∀ {op}, n.operation? = some op → (expr "B").order ≠ op.order) :
    Shows (valueExpr σ n expr).level (valueExpr σ n expr) (valueTree σ n tree) := by
  have hoperation : n.kind = .arithmetic ∨ n.kind = .compare ∨ n.kind = .logic →
      Shows (valueExpr σ n expr).level (valueExpr σ n expr) (valueTree σ n tree) := by
    intro hk
    obtain ⟨op, hop, -⟩ := hc.operation hk
    exact shows_operation hc hop hslots hnotes (hleft hop) (hright hop)
  have hknown := hc.known
  unfold Node.isValue at hval
  unfold valueExpr valueTree at hoperation ⊢
  unfold valueNotes at hnotes
  unfold Node.names at hword
  cases hk : n.kind <;> rw [hk] at hknown hval hoperation hint hnotes hword <;>
    cases hknown <;> cases hval
  case arithmetic | compare | logic => exact hoperation (by decide)
  case number | percent =>
    obtain ⟨k, hget⟩ := hint (by decide)
    have hnumber : n.number "NUM" = .int k := by
      unfold Node.number
      rw [hget]
    have hlevel : (numberCode (.int k)).level = if k < 0 then 7 else 8 := by
      unfold numberCode
      rw [isNegative_int]
      by_cases hk : k < 0 <;> simp [Expr.level, hk]
    dsimp only
    rw [hnumber, hget, hlevel]
    exact .int k
  case boolean => exact .truth _
  case variableGet =>
    exact .of_name (hword _ (mem_singleton.mpr rfl)) rfl
  case negate =>
    obtain ⟨-, hshows⟩ := hslots "BOOL" ((hc.slotNames rfl).1 ▸ by decide) _ hnotes
    exact hshows.negate Expr.le_level_of_atomic
  case group =>
    obtain ⟨-, hshows⟩ := hslots "VALUE" ((hc.slotNames rfl).1 ▸ by decide) _ hnotes
    exact hshows.group
  all_goals exact .of_name (hc.isWord_sensor (mem_singleton.mpr rfl)) rfl

end Node

/-- **A legible block**, in a tree: the names that it writes are words, the numbers that it holds are
integers, its right operand is of another class than its operation, and there are no remarks. -/
structure BlockTree.Legible (σ : Spelling) (p : BlockTree) : Prop where
  word : ∀ u ∈ p.node.names, IsWord (σ.name u.use u.name)
  count : p.needsCounter = true → IsWord (σ.bound p.node.handle)
  int : p.node.kind = .number ∨ p.node.kind = .percent →
    ∃ k : Int, p.node.fields.get? "NUM" = some (.number (.int k))
  right : ∀ {op t op'}, p.node.operation? = some op → ("B", some t) ∈ p.operands →
    t.node.enabled = true → t.node.operation? = some op' → op'.order ≠ op.order
  remarks : p.remarks = ""

section Trees

variable {g : Graph} {σ : Spelling}

theorem Expr.atom_order_ne (text : String) (op : Operator) : (Expr.atom text).order ≠ op.order := by
  cases op <;> nofun

theorem showsSlot_of_operands {n : Node} {spec : BlockSpec} {bodies : Bodies}
    (hn : n.Fitted g spec operands bodies) (h : ∀ {slot t}, (slot, some t) ∈ operands → t.node.enabled = true →
      (t.reading σ).notes = [] → Shows (t.reading σ).expr.level (t.reading σ).expr (t.valueTree σ)) :
    ∀ slot ∈ n.valueSlots.names, ShowsSlot (slotNotes n (readings σ operands))
      (slotExpr n (readings σ operands)) (slotTree n (operandTrees σ operands)) slot := by
  intro slot hslot required hnotes
  rcases slot_cases σ n hn.nodup_operands slot with
    ⟨t, hmem, hen, hexpr, hslot, htree⟩ | ⟨hexpr, htree, -⟩
  · rw [hslot] at hnotes
    rw [hexpr, htree]
    obtain ⟨hown, hgroup⟩ := append_eq_nil_iff.mp hnotes
    refine ⟨?_, h hmem hen hown⟩
    by_contra hne
    rw [if_pos (Bool.not_eq_false _ ▸ hne)] at hgroup
    cases hgroup
  · obtain ⟨s, hs⟩ := exists_get?_of_mem_names hslot
    rw [hexpr, htree, hs]
    exact ⟨by cases required <;> rfl, hn.conforms.shows_default hs⟩

theorem Node.Fitted.operand_orders {n : Node} {spec : BlockSpec} {bodies : Bodies}
    (hn : n.Fitted g spec operands bodies)
    (hself : (BlockTree.mk n true operands bodies).Legible σ) (hop : n.operation? = some op) :
    (op.order = .relational → (slotExpr n (readings σ operands) "A").order ≠ .relational)
      ∧ (slotExpr n (readings σ operands) "B").order ≠ op.order := by
  obtain ⟨op', hop', hsockets, hcompare, -⟩ := hn.conforms.operation (Node.kind_of_operation hop)
  rw [hop] at hop'
  cases hop'
  have hreading : ∀ {slot t}, (slot, some t) ∈ operands → ∃ (expr : String → Expr)
      (spec' : BlockSpec), (t.reading σ).expr = valueExpr σ t.node expr ∧ t.node.Conforms spec' := by
    intro slot t hmem
    cases hn.operand hmem with
    | mk hm hc' => exact ⟨_, _, rfl, hc'⟩
  have hcases := slot_cases σ n hn.nodup_operands
  refine ⟨fun hrel => ?_, ?_⟩
  · rcases hcases "A" with ⟨t, hmem, -, hvalue, -⟩ | ⟨hexpr, -⟩
    · obtain ⟨expr, spec', hexpr, hc'⟩ := hreading hmem
      rw [hvalue, hexpr]
      exact hn.conforms.order_ne_relational (hcompare hrel) (hsockets ▸ by decide) hc' (hn.fits hmem)
    · rw [hexpr]
      nofun
  · rcases hcases "B" with ⟨t, hmem, hen, hvalue, -⟩ | ⟨hexpr, -⟩
    · obtain ⟨expr, spec', hexpr, hc'⟩ := hreading hmem
      rw [hvalue, hexpr]
      intro horder
      obtain ⟨op', hop', horder⟩ := Node.exists_operation_of_order hc' horder
      exact hself.right hop hmem hen hop' horder
    · rw [hexpr]
      exact Expr.atom_order_ne _ op

theorem BlockTree.Sound.shows_value {t : BlockTree} (ht : t.Sound g) (hval : t.node.isValue = true) :
    t.node.enabled = true → (∀ p ∈ t.parts, p.Legible σ) → (t.reading σ).notes = [] →
      Shows (t.reading σ).expr.level (t.reading σ).expr (t.valueTree σ) := by
  induction ht, hval using BlockTree.Sound.induct_value with
  | value hn hval ih =>
    intro hen hlegible hnotes
    have hself := hlegible _ (mem_parts_iff.mpr ⟨hen, .inl rfl⟩)
    have hslots := showsSlot_of_operands (σ := σ) hn fun {slot t} hmem hten hown =>
      ih hmem hten (fun p hp => hlegible p (mem_parts_of_operand hen hmem hp)) hown
    rw [BlockTree.valueTree]
    exact shows_valueExpr hn.conforms hval hslots hnotes hself.word hself.int
      (fun hop => (hn.operand_orders hself hop).1) (fun hop => (hn.operand_orders hself hop).2)

end Trees

/-! ## Statements -/

section Statements

variable {n : Node} {spec : BlockSpec} {margin : String}

theorem shows_constant {w : String} (h : IsWord w) : ∃ level, Shows level (.atom w) (.name w) :=
  ⟨8, .of_name h rfl⟩

theorem Node.Conforms.shows_port (hc : n.Conforms spec) (h : Builtin.motor ∈ spec.fields) :
    ∃ level, Shows level (.atom (n.text "MOTOR")) (portTree (n.text "MOTOR")) := by
  have hmem := hc.text_mem_options h rfl
  have hout : ∀ {w}, IsWord w → Reads 8 [.word w] (.name w) := fun hw => .name hw.2
  have hsum : ∀ {k us l w}, Reads k us l → 5 ≤ k → IsWord w →
      Reads Operator.add.level (us ++ Operator.add.token :: [.word w]) (.binary .add l (.name w)) :=
    fun hl hk hw => hl.binary (hout hw) hk (by decide)
  have hA : IsWord "OUT_A" := ⟨by decide, by decide⟩
  have hB : IsWord "OUT_B" := ⟨by decide, by decide⟩
  have hC : IsWord "OUT_C" := ⟨by decide, by decide⟩
  simp only [Builtin.motor, Builtin.dropdown, Builtin.motorOptions, mem_cons, not_mem_nil, or_false] at hmem
  rcases hmem with h | h | h | h | h | h <;> rw [h]
  · exact shows_constant hA
  · exact shows_constant hB
  · exact shows_constant hC
  · exact ⟨5, hsum (hout hA) (by decide) hB, by decide⟩
  · exact ⟨5, hsum (hout hA) (by decide) hC, by decide⟩
  · exact ⟨5, hsum (hsum (hout hA) (by decide) hB) (by decide) hC, by decide⟩

theorem Nqc.Shows.product {t : ExprTree} (h : Shows e.level e t)
    (hgroup : e.order.needsGrouping .multiplicative = false) {e' : Expr} {t' : ExprTree} (h' : Shows 8 e' t') :
    Shows Operator.multiply.level (.binary .multiply e e') (.binary .multiply t t') :=
  have hlevel : Operator.multiply.level ≤ e.level := Expr.level_le_level hgroup nofun
  h.binary h' hlevel (by decide)

theorem Node.Conforms.shows_setPower (hc : n.Conforms spec) (h : Builtin.motor ∈ spec.fields)
    {t : ExprTree} (he : Shows e.level e t) (hgroup : e.order.needsGrouping .multiplicative = false) :
    ShowsStmts margin [setPower (n.text "MOTOR") e] [powerTree (n.text "MOTOR") t] := by
  have hnat : ∀ k, Shows 8 (.atom (natText k)) (.number k) := fun k => .nat rfl
  have hpercent : Shows Operator.divide.level (.binary .divide (.binary .multiply e (.atom maxPower))
      (.atom "100")) (.binary .divide (.binary .multiply t (.number 7)) (.number 100)) :=
    (he.product hgroup (hnat 7)).binary (hnat 100) (by decide) (by decide)
  exact .call (by decide) (by decide) (.cons (hc.shows_port h) (.cons ⟨8, hpercent.group⟩ .nil)) nofun

theorem Node.Conforms.shows_motorOn (hc : n.Conforms spec) (h : Builtin.motor ∈ spec.fields)
    (direction : String) : ShowsStmts margin [motorOn (n.text "MOTOR") direction]
      [onTree (n.text "MOTOR") direction] := by
  unfold motorOn onTree
  split <;> exact .call (by decide) (by decide) (.cons (hc.shows_port h) .nil) nofun

theorem shows_sensorSetup {sensor type mode : String} (hsensor : IsWord sensor) (htype : IsWord type)
    (hmode : IsWord mode) : ShowsStmts margin
      [constantCall "SetSensorType" [sensor, type], constantCall "SetSensorMode" [sensor, mode]]
      (sensorTrees sensor type mode) := by
  have hcall : ∀ {f w}, isName f = true → f ∉ statementWords → IsWord w →
      ShowsStmts margin [constantCall f [sensor, w]] [.call f [.name sensor, .name w]] :=
    fun hname hf hw =>
      .call hname hf (.cons (shows_constant hsensor) (.cons (shows_constant hw) .nil)) nofun
  exact (hcall (by decide) (by decide) htype).append (hcall (by decide) (by decide) hmode)

def ShowsBody (margin : String) (notes : String → List CodeNote) (body : String → List Stmt)
    (trees : String → List StmtTree) (slot : String) : Prop :=
  notes slot = [] → ShowsStmts margin (body slot) (trees slot)

variable {σ : Spelling} {notes : String → Order → List CodeNote} {expr : String → Expr}
  {tree : String → ExprTree} {bodyNotes : String → List CodeNote} {body : String → List Stmt}
  {trees : String → List StmtTree}

theorem shows_conditional (hc : n.Conforms spec) (hk : n.kind = .conditional)
    (hshape : spec.shape = .branches) (hm : ∀ c ∈ margin.toList, c.isWhitespace = true)
    (hslots : ∀ slot ∈ n.valueSlots.names, ShowsSlot notes expr tree slot)
    (hbodies : ∀ slot ∈ n.statementSlots.names, ShowsBody margin bodyNotes body trees slot)
    {counter : Bool} (hnotes : nodeNotes n counter notes bodyNotes = []) :
    ShowsStmts margin (nodeStmts σ n counter expr body) (statementTrees σ n counter tree trees) := by
  obtain ⟨count, hasElse, hvalues, hstatements, hlength, helse⟩ := hc.branchSlots hshape
  unfold nodeNotes at hnotes
  unfold nodeStmts statementTrees
  rw [hk] at hnotes ⊢
  dsimp only at hnotes ⊢
  rw [hlength, helse] at hnotes ⊢
  obtain ⟨hbranches, hlast⟩ := append_eq_nil_iff.mp hnotes
  have harm : ∀ i ∈ List.range (count + 1), ShowsArm margin (expr ("IF" ++ natText i), body ("DO" ++ natText i))
      (tree ("IF" ++ natText i), trees ("DO" ++ natText i)) := by
    intro i hi
    obtain ⟨hvalue, hbody⟩ := append_eq_nil_iff.mp (flatMap_eq_nil_iff.mp hbranches i hi)
    refine ⟨⟨_, (hslots _ ?_ _ hvalue).2⟩, hbodies _ ?_ hbody⟩
    · rw [hvalues]
      exact mem_map_of_mem (f := fun i => "IF" ++ natText i) hi
    · rw [hstatements]
      exact mem_append_left _ (mem_map_of_mem (f := fun i => "DO" ++ natText i) hi)
  have harms : List.Forall₂ (ShowsArm margin) (arms expr body (count + 1)) ((List.range (count + 1)).map fun i =>
        (tree ("IF" ++ natText i), trees ("DO" ++ natText i))) := by
    unfold arms
    rw [forall₂_map_left_iff, forall₂_map_right_iff, forall₂_same]
    exact harm
  have hne : arms expr body (count + 1) ≠ [] := by simp [arms]
  cases hasElse with
  | false => exact .branches hm harms hne
  | true =>
    refine .branchesElse hm harms hne (hbodies "ELSE" ?_ hlast)
    rw [hstatements]
    exact mem_append_right _ (mem_singleton.mpr rfl)

theorem shows_nodeStmts (hc : n.Conforms spec) (hren : n.kind.isRenderable = true)
    (hm : ∀ c ∈ margin.toList, c.isWhitespace = true)
    (hslots : ∀ slot ∈ n.valueSlots.names, ShowsSlot notes expr tree slot)
    (hbodies : ∀ slot ∈ n.statementSlots.names, ShowsBody margin bodyNotes body trees slot)
    {counter : Bool} (hnotes : nodeNotes n counter notes bodyNotes = [])
    (hword : ∀ u ∈ n.names, IsWord (σ.name u.use u.name)) (hcount : counter = true → IsWord (σ.bound n.handle))
    (hvalue : n.isValue = true → valueNotes n notes = [] →
      Shows (valueExpr σ n expr).level (valueExpr σ n expr) (valueTree σ n tree)) :
    ShowsStmts margin (nodeStmts σ n counter expr body) (statementTrees σ n counter tree trees) := by
  have hknown := hc.known
  have hbranches : n.kind = .conditional → spec.shape = .branches →
      ShowsStmts margin (nodeStmts σ n counter expr body) (statementTrees σ n counter tree trees) :=
    fun hk hshape => shows_conditional hc hk hshape hm hslots hbodies hnotes
  unfold Node.isValue at hvalue
  unfold nodeStmts statementTrees at hbranches ⊢
  unfold nodeNotes at hnotes
  unfold Node.names at hword
  cases hk : n.kind <;> rw [hk] at hknown hren hvalue hnotes hword hbranches <;>
    cases hknown <;> cases hren
  case conditional => exact hbranches rfl rfl
  case touchValue | lightValue | rotationValue | temperatureValue | variableGet | number | percent
      | arithmetic | group | compare | logic | negate | boolean =>
    exact .expression (hvalue rfl hnotes)
  case motorOnWithPower =>
    obtain ⟨hgroup, hshows⟩ := hslots "POWER" ((hc.slotNames rfl).1 ▸ by decide) _ hnotes
    exact (hc.shows_setPower mem_cons_self hshows hgroup).append (hc.shows_motorOn mem_cons_self _)
  case setPower =>
    obtain ⟨hgroup, hshows⟩ := hslots "POWER" ((hc.slotNames rfl).1 ▸ by decide) _ hnotes
    exact hc.shows_setPower mem_cons_self hshows hgroup
  case motorOn => exact hc.shows_motorOn mem_cons_self _
  case motorOff =>
    exact .call (by decide) (by decide) (.cons (hc.shows_port mem_cons_self) .nil) (cons_ne_nil _ _)
  case setDirection =>
    have hdirection : IsWord (if n.text "DIRECTION" == "FWD" then "OUT_FWD" else "OUT_REV") := by
      split <;> exact ⟨by decide, by decide⟩
    exact .call (by decide) (by decide)
      (.cons (hc.shows_port mem_cons_self) (.cons (shows_constant hdirection) .nil)) (cons_ne_nil _ _)
  case playSound =>
    have hsound : IsWord (n.text "SOUND") := by
      have hmem := hc.text_mem_options (mem_singleton.mpr rfl) rfl
      simp only [Builtin.dropdown, Builtin.soundOptions, mem_cons, not_mem_nil, or_false] at hmem
      rcases hmem with h | h | h | h | h | h <;> rw [h] <;> exact ⟨by decide, by decide⟩
    exact .call (by decide) (by decide) (.cons (shows_constant hsound) .nil) (cons_ne_nil _ _)
  case rotationSensorSetup =>
    have hsensor := hc.isWord_sensor (mem_singleton.mpr rfl)
    exact (shows_sensorSetup hsensor ⟨by decide, by decide⟩ ⟨by decide, by decide⟩).append
      (.call (by decide) (by decide) (.cons (shows_constant hsensor) .nil) (cons_ne_nil _ _))
  case touchSensorSetup | lightSensorSetup | temperatureSensorSetup =>
    exact shows_sensorSetup (hc.isWord_sensor (mem_singleton.mpr rfl)) ⟨by decide, by decide⟩ ⟨by decide, by decide⟩
  case waitSeconds =>
    obtain ⟨hgroup, hshows⟩ := hslots "SECONDS" ((hc.slotNames rfl).1 ▸ by decide) _ hnotes
    have hticks : Shows 8 (.atom ticksPerSecond) (.number 100) := .nat (by decide)
    exact .call (by decide) (by decide) (.cons ⟨_, hshows.product hgroup hticks⟩ .nil) (cons_ne_nil _ _)
  case waitUntil =>
    obtain ⟨-, hshows⟩ := hslots "CONDITION" ((hc.slotNames rfl).1 ▸ by decide) _ hnotes
    exact .call (by decide) (by decide) (.cons ⟨_, hshows⟩ .nil) (cons_ne_nil _ _)
  case repeatTimes =>
    obtain ⟨hnotes, hnested⟩ := append_eq_nil_iff.mp hnotes
    obtain ⟨-, hshows⟩ := hslots "TIMES" ((hc.slotNames rfl).1 ▸ by decide) _ hnotes
    have hbody := hbodies "DO" ((hc.slotNames rfl).2 ▸ by decide) hnested
    cases counter with
    | false => exact .repeatTimes hm hshows hbody
    | true =>
      have hbound := hcount rfl
      exact (ShowsStmts.assign hbound hshows).append (.repeatTimes hm (.of_name hbound rfl) hbody)
  case repeatForever => exact .forever hm (hbodies "DO" ((hc.slotNames rfl).2 ▸ by decide) hnotes)
  case repeatUntil =>
    obtain ⟨hnested, hnotes⟩ := append_eq_nil_iff.mp hnotes
    obtain ⟨-, hshows⟩ := hslots "CONDITION" ((hc.slotNames rfl).1 ▸ by decide) _ hnotes
    exact .doUntil hm (hbodies "DO" ((hc.slotNames rfl).2 ▸ by decide) hnested) hshows
  case variableSet =>
    obtain ⟨-, hshows⟩ := hslots "VALUE" ((hc.slotNames rfl).1 ▸ by decide) _ hnotes
    exact .assign (hword _ (mem_singleton.mpr rfl)) hshows
  case startTask => exact .start (hword _ (mem_singleton.mpr rfl))
  case stopTask => exact .stop (hword _ (mem_singleton.mpr rfl))

end Statements

section Chains

variable {g : Graph} {σ : Spelling} {margin : String}

theorem shows_chainStmts : ∀ {chain : List BlockTree},
    (∀ t ∈ chain, t.notes σ = [] → ShowsStmts margin (t.stmts σ) (t.statementTrees σ)) →
      chainNotes σ chain = [] → ShowsStmts margin (chainStmts σ chain) (chainTrees σ chain)
  | [], _, _ => .nil
  | t :: rest, h, hnotes => by
    rw [chainNotes, append_eq_nil_iff] at hnotes
    rw [chainStmts, chainTrees]
    exact (h t mem_cons_self hnotes.1).append (shows_chainStmts (fun t ht => h t (mem_cons_of_mem _ ht)) hnotes.2)

theorem showsBody_of_bodies {bodies : Bodies} (h : ∀ slot, chainNotes σ (chainAt bodies slot) = [] →
      ShowsStmts margin (chainStmts σ (chainAt bodies slot)) (chainTrees σ (chainAt bodies slot)))
    (slot : String) : ShowsBody margin (fun slot => (get? slot (bodyNotes σ bodies)).getD [])
      (fun slot => (get? slot (bodyStmts σ bodies)).getD [])
      (fun slot => (get? slot (bodyTrees σ bodies)).getD []) slot := by
  unfold ShowsBody
  dsimp only
  rw [getD_bodyNotes, getD_bodyStmts, getD_bodyTrees]
  exact h slot

theorem BlockTree.Sound.shows_stmts (hm : ∀ c ∈ margin.toList, c.isWhitespace = true)
    {t : BlockTree} (ht : t.Sound g) (hren : t.node.kind.isRenderable = true) :
    (∀ p ∈ t.parts, p.Legible σ) → t.notes σ = [] → ShowsStmts margin (t.stmts σ) (t.statementTrees σ) := by
  induction ht, hren using BlockTree.Sound.induct_code with
  | @code n spec operands bodies hn hren ih =>
    intro hlegible hnotes
    rw [BlockTree.stmts, BlockTree.statementTrees]
    by_cases hen : n.enabled = true
    · rw [BlockTree.notes, if_pos hen] at hnotes
      rw [if_pos hen, if_pos hen]
      have hself := hlegible _ (mem_parts_iff.mpr ⟨hen, .inl rfl⟩)
      have hslots := showsSlot_of_operands (σ := σ) hn fun {slot t} hmem hten hown =>
        (hn.operand hmem).shows_value (hn.isValue hmem) hten
          (fun p hp => hlegible p (mem_parts_of_operand hen hmem hp)) hown
      have hchains := showsBody_of_bodies (σ := σ) fun slot => shows_chainStmts fun t ht =>
        ih (mem_of_mem_chainAt ht) t ht fun p hp =>
          hlegible p (mem_parts_of_body hen (mem_of_mem_chainAt ht) ht hp)
      rw [hself.remarks]
      exact shows_nodeStmts hn.conforms hren hm hslots (fun slot _ => hchains slot) hnotes hself.word
        hself.count fun hval hvnotes => shows_valueExpr hn.conforms hval hslots hvnotes hself.word
          hself.int (fun hop => (hn.operand_orders hself hop).1)
          (fun hop => (hn.operand_orders hself hop).2)
    · rw [if_neg hen, if_neg hen]
      exact .nil

end Chains

end NqcBlocks
