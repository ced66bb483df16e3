import NqcBlocks.Proofs.Graph.Edit
import NqcBlocks.Proofs.Graph.Grounded

/-!
# The trees of a forest

A forest is grounded, because going inwards is going back on a path (`Forest.grounded`). So the tree of
a block is made of the trees of what is plugged into it (`tree_eq`), and the trees of a chain are the
tree of its first statement and those of the rest (`trees_eq`).
-/

namespace NqcBlocks

open List Option

variable {n : Node} {h : Handle} {s : BlockTree} {spec : BlockSpec}

namespace Graph.Forest

variable {g : Graph}

/-! ## The trees of blocks and chains -/

theorem at?_of_mem_valueSlots (hc : n.Conforms spec) {e : String × ValueSlot}
    (he : e ∈ n.valueSlots) : n.at? e.1 = e.2.target := by
  have hget := (Table.get?_eq_some_iff hc.nodup_valueSlots).mpr he
  rw [n.at?_of_ne (hc.ne_nextPosition hget), hget]

theorem at?_of_mem_statementSlots (hc : n.Conforms spec) {e : String × Option Handle}
    (he : e ∈ n.statementSlots) : n.at? e.1 = e.2 := by
  have hget := (Table.get?_eq_some_iff hc.nodup_statementSlots).mpr he
  obtain ⟨hne, hv⟩ := ChainPosition.slot_of_isOf hc (Table.contains_iff.mpr (Table.mem_names_of_get? hget))
  rw [n.at?_of_ne hne, hv, hget]
  rfl

theorem exists_path_of_transGen (hg : g.Forest) {c : Handle} {l : List Handle}
    (hc : Relation.TransGen g.PluggedInto c h) (hl : g.Path h l) : ∃ l', l' ≠ [] ∧ g.Path c (l' ++ l) := by
  have hup : ∀ {c b : Handle} {l : List Handle}, g.PluggedInto c b → g.Path b l → g.Path c (c :: l) := by
    rintro c b l ⟨n, hn, hmem⟩ hl
    obtain ⟨p, hp, rfl⟩ := (hg.mem_targets_iff hn).mp hmem
    exact .up hp hl
  induction hc using Relation.TransGen.head_induction_on with
  | @single c hc => exact ⟨[c], cons_ne_nil _ _, hup hc hl⟩
  | @head c b hc _ ih =>
    obtain ⟨l', -, hpath⟩ := ih
    exact ⟨c :: l', cons_ne_nil _ _, hup hc hpath⟩

theorem grounded (hg : g.Forest) : g.Grounded where
  handle_eq := hg.handle_eq
  acyclic h hloop := by
    obtain ⟨n, hn⟩ : ∃ n, g.get? h = some n := by
      cases hloop with
      | single hc => exact hc.imp fun _ => And.left
      | tail _ hc => exact hc.imp fun _ => And.left
    obtain ⟨l, hl⟩ := hg.rooted hn
    obtain ⟨l', hne, hl'⟩ := hg.exists_path_of_transGen hloop hl
    exact hne (List.self_eq_append_left.mp (hl.unique hl'))

theorem tree_eq (hg : g.Forest) (hn : g.get? h = some n) : g.tree n = .mk n true
      (n.valueSlots.map fun e => (e.1, (g.follow? e.2.target).map g.tree))
      (n.statementSlots.map fun e => (e.1, g.trees e.2)) :=
  hg.grounded.tree_eq hn

theorem trees_eq (hg : g.Forest) {c : Handle} (hn : g.get? c = some n) :
    g.trees (some c) = g.tree n :: g.trees n.next :=
  hg.grounded.trees_eq hn

theorem headTrees_eq (hg : g.Forest) (hn : g.get? h = some n) : g.headTrees h = g.trees (some h) :=
  hg.grounded.headTrees_eq hn

end Graph.Forest

variable {slot : String} {attached : Bool} {operands : Operands} {bodies : Bodies} {t : BlockTree} {g : Graph}

theorem Node.Conforms.isValue_of_takes (hc : n.Conforms spec)
    (hslot : slot ∈ n.valueSlots.names) {m : Node} (h : n.Takes slot m) : m.isValue = true := by
  obtain ⟨sort, hsort, hfits⟩ := h
  obtain ⟨v, hv⟩ := Table.exists_get?_of_mem_names hslot
  rw [hc.socket?_value hv] at hsort
  cases hsort
  exact hfits.1

theorem Node.Conforms.statementSlots_of_isValue (hc : n.Conforms spec) (hval : n.isValue = true) :
    n.statementSlots.names = [] := by
  have hknown := hc.known
  unfold Node.isValue at hval
  cases hk : n.kind <;> rw [hk] at hknown hval <;> cases hknown <;> cases hval <;>
    exact (hc.slotNames rfl).2

/-! ## Sound trees -/

/-- **A sound tree** of a graph: its blocks are in the graph and conform to their kinds, its operands and
bodies are in the sockets that the block has, every operand is a value that fits its socket, and the
bodies are chains of statements. -/
inductive BlockTree.Sound (g : Graph) : BlockTree → Prop
  | mk {n : Node} {spec : BlockSpec} {operands : Operands}
      {bodies : Bodies} (present : g.get? n.handle = some n)
      (conforms : n.Conforms spec)
      (operandNames : operands.map (·.1) = n.valueSlots.names)
      (operand : ∀ {slot t}, (slot, some t) ∈ operands → Sound g t)
      (fits : ∀ {slot t}, (slot, some t) ∈ operands → n.Takes slot t.node)
      (bodyNames : bodies.map (·.1) = n.statementSlots.names)
      (body : ∀ {slot ts}, (slot, ts) ∈ bodies → ∀ t ∈ ts, Sound g t)
      (statements : ∀ {slot ts}, (slot, ts) ∈ bodies → ∀ t ∈ ts, t.node.isStatement = true) :
      Sound g (.mk n true operands bodies)

/-- **A block with what is in its sockets**, as a sound tree has them. -/
structure Node.Fitted (g : Graph) (n : Node) (spec : BlockSpec)
    (operands : Operands) (bodies : Bodies) : Prop where
  present : g.get? n.handle = some n
  conforms : n.Conforms spec
  operandNames : Table.names operands = n.valueSlots.names
  operand : ∀ {slot t}, (slot, some t) ∈ operands → t.Sound g
  fits : ∀ {slot t}, (slot, some t) ∈ operands → n.Takes slot t.node
  bodyNames : Table.names bodies = n.statementSlots.names
  body : ∀ {slot ts}, (slot, ts) ∈ bodies → ∀ t ∈ ts, t.Sound g
  statements : ∀ {slot ts}, (slot, ts) ∈ bodies → ∀ t ∈ ts, t.node.isStatement = true

def chainAt (bodies : Bodies) (slot : String) : List BlockTree :=
  (Table.get? slot bodies).getD []

section Fitted

variable {g : Graph} {operands : Operands} {bodies : Bodies} {t : BlockTree}

namespace Node.Fitted

theorem sound (hn : n.Fitted g spec operands bodies) : (BlockTree.mk n true operands bodies).Sound g :=
  .mk hn.present hn.conforms hn.operandNames hn.operand hn.fits hn.bodyNames hn.body hn.statements

theorem nodup_operands (hn : n.Fitted g spec operands bodies) : (Table.names operands).Nodup :=
  hn.operandNames ▸ hn.conforms.nodup_valueSlots

theorem nodup_bodies (hn : n.Fitted g spec operands bodies) : (Table.names bodies).Nodup :=
  hn.bodyNames ▸ hn.conforms.nodup_statementSlots

theorem isValue (hn : n.Fitted g spec operands bodies) {slot : String}
    (hmem : (slot, some t) ∈ operands) : t.node.isValue = true :=
  hn.conforms.isValue_of_takes (hn.operandNames ▸ List.mem_map_of_mem hmem) (hn.fits hmem)

end Node.Fitted

theorem mem_of_mem_chainAt {slot : String} (ht : t ∈ chainAt bodies slot) : (slot, chainAt bodies slot) ∈ bodies := by
  unfold chainAt at ht ⊢
  cases hget : Table.get? slot bodies with
  | none =>
    rw [hget] at ht
    cases ht
  | some chain => exact Table.mem_of_get? hget

theorem chainAt_of_mem (hnd : (Table.names bodies).Nodup) {slot : String} {chain : List BlockTree}
    (hmem : (slot, chain) ∈ bodies) : chainAt bodies slot = chain := by
  unfold chainAt
  rw [(Table.get?_eq_some_iff hnd).mpr hmem]
  rfl

theorem getD_bodies {β : Type} {f : Bodies → List (String × List β)}
    {F : List BlockTree → List β} (hF : F [] = []) (hnil : f [] = [])
    (hcons : ∀ slot chain rest, f ((slot, chain) :: rest) = (slot, F chain) :: f rest)
    (bodies : Bodies) (slot : String) : (Table.get? slot (f bodies)).getD [] = F (chainAt bodies slot) := by
  unfold chainAt
  rw [Table.get?_of_cons hnil hcons]
  cases Table.get? slot bodies with
  | none => exact hF.symm
  | some chain => rfl

theorem get?_operands {β : Type} {f : Operands → List (String × Option β)}
    {F : BlockTree → β} (hnil : f [] = [])
    (hnone : ∀ slot rest, f ((slot, none) :: rest) = (slot, none) :: f rest)
    (hsome : ∀ slot t rest, f ((slot, some t) :: rest)
      = (slot, if t.node.enabled then some (F t) else none) :: f rest)
    (operands : Operands) (slot : String) :
    Table.get? slot (f operands) = (Table.get? slot operands).map fun o => (o.filter (·.node.enabled)).map F := by
  refine Table.get?_of_cons hnil (fun slot o rest => ?_) slot operands
  cases o with
  | none => exact hnone slot rest
  | some t =>
    rw [hsome, filter_some]
    split <;> rfl

@[induction_eliminator]
theorem BlockTree.Sound.induct {motive : ∀ t : BlockTree, t.Sound g → Prop}
    (block : ∀ {n : Node} {spec : BlockSpec} {operands : Operands}
      {bodies : Bodies} (hn : n.Fitted g spec operands bodies),
      (∀ {slot t} (hmem : (slot, some t) ∈ operands), motive t (hn.operand hmem)) →
      (∀ {slot ts} (hmem : (slot, ts) ∈ bodies) (t) (ht : t ∈ ts), motive t (hn.body hmem t ht)) →
      motive _ hn.sound) (ht : t.Sound g) : motive t ht := by
  refine Sound.rec (motive := motive) ?_ ht
  intro n spec operands bodies hget hc hon hop hfits hbn hbody hst ihop ihbody
  exact block ⟨hget, hc, hon, hop, hfits, hbn, hbody, hst⟩ ihop ihbody

theorem BlockTree.Sound.induct_value {motive : ∀ t : BlockTree, t.Sound g → t.node.isValue = true → Prop}
    (value : ∀ {n : Node} {spec : BlockSpec} {operands : Operands}
      (hn : n.Fitted g spec operands []) (hval : n.isValue = true),
      (∀ {slot t} (hmem : (slot, some t) ∈ operands), motive t (hn.operand hmem) (hn.isValue hmem)) →
      motive _ hn.sound hval) (ht : t.Sound g) (hval : t.node.isValue = true) : motive t ht hval := by
  induction ht with
  | @block n spec operands bodies hn ihop ihbody =>
    have hbodies : bodies = [] := by
      have hnames := hn.bodyNames
      rw [hn.conforms.statementSlots_of_isValue hval] at hnames
      exact map_eq_nil_iff.mp hnames
    subst hbodies
    exact value hn hval fun hmem => ihop hmem (hn.isValue hmem)

end Fitted

namespace Graph.Forest

variable {g : Graph}

theorem node_tree (hg : g.Forest) (hn : g.get? h = some n) : (g.tree n).node = n := by
  rw [hg.tree_eq hn]
  rfl

theorem sound_trees_aux (hg : g.Forest) (hn : g.get? h = some n) :
    (g.tree n).Sound g ∧ ∀ t ∈ g.trees n.next, t.Sound g ∧ t.node.isStatement = true := by
  refine hg.induction_inwards
    (P := fun n => (g.tree n).Sound g ∧ ∀ t ∈ g.trees n.next, t.Sound g ∧ t.node.isStatement = true)
    ?_ hn
  clear hn
  intro h n hn ih
  obtain ⟨-, spec, hc⟩ := hg.sound hn
  have hchain : ∀ {k c}, n.at? k = some c → n.socket? k = some .chain →
      ∀ t ∈ g.trees (some c), t.Sound g ∧ t.node.isStatement = true := by
    intro k c hat hsocket t ht
    obtain ⟨m, hm, -, s, hs, hfits⟩ := hg.exists_child hn hat
    rw [hsocket] at hs
    cases hs
    rw [hg.trees_eq hm] at ht
    rcases mem_cons.mp ht with rfl | ht
    · exact ⟨(ih hat hm).1, by rw [hg.node_tree hm]; exact hfits⟩
    · exact (ih hat hm).2 t ht
  have hvalue : ∀ {slot t}, (slot, some t) ∈ n.valueSlots.map
      (fun e => (e.1, (g.follow? e.2.target).map g.tree)) → t.Sound g ∧ n.Takes slot t.node := by
    intro slot t ht
    obtain ⟨e, he, heq⟩ := List.mem_map.mp ht
    injection heq with hslot htree
    have hat := at?_of_mem_valueSlots hc he
    obtain ⟨m, hm, rfl⟩ := map_eq_some_iff.mp htree
    obtain ⟨c, hc', hm⟩ := Option.bind_eq_some_iff.mp hm
    rw [hc'] at hat
    obtain ⟨m', hm', -, htakes⟩ := hg.exists_child hn hat
    rw [hm] at hm'
    cases hm'
    exact ⟨(ih hat hm).1, by rw [hg.node_tree hm, ← hslot]; exact htakes⟩
  have hbody : ∀ {slot ts}, (slot, ts) ∈ n.statementSlots.map (fun e => (e.1, g.trees e.2)) →
      ∀ t ∈ ts, t.Sound g ∧ t.node.isStatement = true := by
    intro slot ts hts t ht
    obtain ⟨e, he, heq⟩ := List.mem_map.mp hts
    injection heq with hslot htrees
    have hat := at?_of_mem_statementSlots hc he
    cases htarget : e.2 with
    | none =>
      rw [htarget] at htrees
      rw [← htrees] at ht
      unfold trees at ht
      rw [treesWithin_none] at ht
      cases ht
    | some c =>
      rw [htarget] at hat htrees
      rw [← htrees] at ht
      have hpos : ChainPosition.IsOf n (.slot e.1) := Table.contains_iff.mpr (List.mem_map_of_mem he)
      exact hchain hat (ChainPosition.socket?_eq hc hpos) t ht
  constructor
  · rw [hg.tree_eq hn]
    refine .mk (by rw [hg.handle_eq hn, hn]) hc ?_ (fun ht => (hvalue ht).1) (fun ht => (hvalue ht).2) ?_
      (fun hts t ht => (hbody hts t ht).1) (fun hts t ht => (hbody hts t ht).2)
    · rw [List.map_map]
      rfl
    · rw [List.map_map]
      rfl
  · intro t ht
    cases hnext : n.next with
    | none =>
      rw [hnext] at ht
      unfold trees at ht
      rw [treesWithin_none] at ht
      cases ht
    | some c =>
      rw [hnext] at ht
      obtain ⟨m, hm, -, hst, -⟩ := hg.exists_next hn hnext
      exact hchain ((n.at?_nextPosition).trans hnext) ((if_pos rfl).trans (if_pos hst)) t ht

theorem sound_tree (hg : g.Forest) (hn : g.get? h = some n) : (g.tree n).Sound g := (hg.sound_trees_aux hn).1

theorem sound_trees (hg : g.Forest) (hn : g.get? h = some n) : ∀ t ∈ g.trees (some h), t.Sound g := by
  intro t ht
  rw [hg.trees_eq hn] at ht
  rcases mem_cons.mp ht with rfl | ht
  · exact hg.sound_tree hn
  · exact ((hg.sound_trees_aux hn).2 t ht).1

end Graph.Forest

/-! ## Parts -/

mutual
/-- **The parts of a tree**: the tree itself, if its block is enabled, and the parts of what is plugged
into it. A disabled block takes everything plugged into it along. -/
def BlockTree.parts : BlockTree → List BlockTree
  | .mk n attached operands bodies =>
    if n.enabled then
      .mk n attached operands bodies :: (operandParts operands ++ bodyParts bodies)
    else []
def operandParts : Operands → List BlockTree
  | [] => []
  | (_, none) :: rest => operandParts rest
  | (_, some t) :: rest => t.parts ++ operandParts rest
def bodyParts : Bodies → List BlockTree
  | [] => []
  | (_, chain) :: rest => chainParts chain ++ bodyParts rest
def chainParts : List BlockTree → List BlockTree
  | [] => []
  | t :: rest => t.parts ++ chainParts rest
end

theorem mem_operandParts : ∀ {operands : Operands},
    s ∈ operandParts operands ↔ ∃ slot t, (slot, some t) ∈ operands ∧ s ∈ t.parts
  | [] => by simp [operandParts]
  | (slot, none) :: rest => by
    rw [operandParts, mem_operandParts]
    simp
  | (slot, some t) :: rest => by
    rw [operandParts, mem_append, mem_operandParts]
    constructor
    · rintro (h | ⟨slot', t', hmem, h⟩)
      · exact ⟨slot, t, mem_cons_self, h⟩
      · exact ⟨slot', t', mem_cons_of_mem _ hmem, h⟩
    · rintro ⟨slot', t', hmem, h⟩
      rcases mem_cons.mp hmem with heq | hmem
      · cases heq
        exact .inl h
      · exact .inr ⟨slot', t', hmem, h⟩

theorem mem_chainParts : ∀ {chain : List BlockTree}, s ∈ chainParts chain ↔ ∃ t ∈ chain, s ∈ t.parts
  | [] => by simp [chainParts]
  | t :: rest => by
    rw [chainParts, mem_append, mem_chainParts, exists_mem_cons_iff]

theorem mem_bodyParts : ∀ {bodies : Bodies},
    s ∈ bodyParts bodies ↔ ∃ slot chain, (slot, chain) ∈ bodies ∧ s ∈ chainParts chain
  | [] => by simp [bodyParts]
  | (slot, chain) :: rest => by
    rw [bodyParts, mem_append, mem_bodyParts]
    constructor
    · rintro (h | ⟨slot', chain', hmem, h⟩)
      · exact ⟨slot, chain, mem_cons_self, h⟩
      · exact ⟨slot', chain', mem_cons_of_mem _ hmem, h⟩
    · rintro ⟨slot', chain', hmem, h⟩
      rcases mem_cons.mp hmem with heq | hmem
      · cases heq
        exact .inl h
      · exact .inr ⟨slot', chain', hmem, h⟩

theorem mem_parts_iff :
    s ∈ (BlockTree.mk n attached operands bodies).parts ↔ n.enabled = true
      ∧ (s = .mk n attached operands bodies ∨ s ∈ operandParts operands ∨ s ∈ bodyParts bodies) := by
  rw [BlockTree.parts]
  split
  · next h => simp [h]
  · next h => simp [h]

theorem BlockTree.parts_of_disabled (h : ¬ t.node.enabled = true) : t.parts = [] := by
  obtain ⟨n, attached, operands, bodies⟩ := t
  rw [BlockTree.parts]
  exact if_neg h

theorem mem_parts_of_operand
    (hen : n.enabled = true)
    (hmem : (slot, some t) ∈ operands) (hs : s ∈ t.parts) :
    s ∈ (BlockTree.mk n attached operands bodies).parts :=
  mem_parts_iff.mpr ⟨hen, .inr (.inl (mem_operandParts.mpr ⟨slot, t, hmem, hs⟩))⟩

theorem mem_parts_of_body
    (hen : n.enabled = true)
    {chain : List BlockTree} (hmem : (slot, chain) ∈ bodies) (ht : t ∈ chain)
    (hs : s ∈ t.parts) : s ∈ (BlockTree.mk n attached operands bodies).parts :=
  mem_parts_iff.mpr ⟨hen, .inr (.inr (mem_bodyParts.mpr ⟨slot, chain, hmem, mem_chainParts.mpr ⟨t, ht, hs⟩⟩))⟩

theorem enabled_of_mem_parts {s : BlockTree} (ht : t.Sound g) :
    s ∈ t.parts → s.node.enabled = true ∧ s.Sound g := by
  induction ht with
  | block hn ihop ihbody =>
    intro hs
    obtain ⟨hen, hs⟩ := mem_parts_iff.mp hs
    rcases hs with rfl | hs | hs
    · exact ⟨hen, hn.sound⟩
    · obtain ⟨slot, t, hmem, hs⟩ := mem_operandParts.mp hs
      exact ihop hmem hs
    · obtain ⟨slot, chain, hmem, hs⟩ := mem_bodyParts.mp hs
      obtain ⟨t, ht, hs⟩ := mem_chainParts.mp hs
      exact ihbody hmem t ht hs

namespace Graph

/-- **Where generating code goes on from a block**: to the statement after it, and, if it is enabled, to
what is in its sockets. -/
inductive Follows (g : Graph) : Handle → Handle → Prop
  | next {h c : Handle} {n : Node} : g.get? h = some n → n.next = some c → Follows g h c
  | slot {h c : Handle} {n : Node} {k : String} : g.get? h = some n → n.enabled = true →
      k ≠ nextPosition → n.Holds k c → Follows g h c

namespace Forest

variable {g : Graph}

theorem next_eq_none_of_isValue (hg : g.Forest) (hn : g.get? h = some n) (hv : n.isValue = true) : n.next = none := by
  by_contra hne
  obtain ⟨c, hc⟩ := Option.ne_none_iff_exists'.mp hne
  obtain ⟨-, -, -, hst, -⟩ := hg.exists_next hn hc
  exact Node.not_isStatement_of_isValue hv hst

variable {c : Handle}

/-- A value has nothing after it, so that its chain is its tree. -/
theorem trees_of_valueSlot (hg : g.Forest) (hn : g.get? h = some n) {e : String × ValueSlot} (he : e ∈ n.valueSlots) :
    g.trees e.2.target = ((g.follow? e.2.target).map g.tree).toList := by
  obtain ⟨-, spec, hc⟩ := hg.sound hn
  cases htarget : e.2.target with
  | none => exact trees_none g
  | some c =>
    obtain ⟨m, hm, -, hfits⟩ := hg.exists_child hn ((at?_of_mem_valueSlots hc he).trans htarget)
    have hvalue := hc.isValue_of_takes (List.mem_map_of_mem he) hfits
    rw [hg.trees_eq hm, hg.next_eq_none_of_isValue hm hvalue, trees_none, show g.follow? (some c) = some m from hm]
    rfl

theorem mem_operands_iff (hg : g.Forest) (hn : g.get? h = some n) :
    s ∈ operandParts (n.valueSlots.map fun e => (e.1, (g.follow? e.2.target).map g.tree))
      ↔ ∃ e ∈ n.valueSlots, ∃ c, e.2.target = some c ∧ s ∈ chainParts (g.trees (some c)) := by
  rw [mem_operandParts]
  constructor
  · rintro ⟨slot, t, hmem, hs⟩
    obtain ⟨e, he, heq⟩ := List.mem_map.mp hmem
    injection heq with hslot htree
    obtain ⟨m, hm, -⟩ := map_eq_some_iff.mp htree
    obtain ⟨c, htarget, -⟩ := Option.bind_eq_some_iff.mp hm
    refine ⟨e, he, c, htarget, mem_chainParts.mpr ⟨t, ?_, hs⟩⟩
    rw [← htarget, hg.trees_of_valueSlot hn he, htree]
    exact mem_singleton.mpr rfl
  · rintro ⟨e, he, c, htarget, hs⟩
    obtain ⟨t, ht, hs⟩ := mem_chainParts.mp hs
    rw [← htarget, hg.trees_of_valueSlot hn he, mem_toList] at ht
    exact ⟨e.1, t, List.mem_map.mpr ⟨e, he, by rw [ht]⟩, hs⟩

theorem mem_bodies_iff : s ∈ bodyParts (n.statementSlots.map fun e => (e.1, g.trees e.2))
    ↔ ∃ e ∈ n.statementSlots, ∃ c, e.2 = some c ∧ s ∈ chainParts (g.trees (some c)) := by
  rw [mem_bodyParts]
  constructor
  · rintro ⟨slot, chain, hmem, hs⟩
    obtain ⟨e, he, heq⟩ := List.mem_map.mp hmem
    cases heq
    cases htarget : e.2 with
    | none =>
      rw [htarget, trees, treesWithin_none] at hs
      cases hs
    | some c => exact ⟨e, he, c, htarget, htarget ▸ hs⟩
  · rintro ⟨e, he, c, htarget, hs⟩
    exact ⟨e.1, _, List.mem_map.mpr ⟨e, he, rfl⟩, htarget ▸ hs⟩

theorem mem_chainParts_step (hg : g.Forest) (hn : g.get? h = some n) :
    s ∈ chainParts (g.trees (some h)) ↔ n.enabled = true ∧ s = g.tree n
      ∨ ∃ c, g.Follows h c ∧ s ∈ chainParts (g.trees (some c)) := by
  obtain ⟨-, spec, hc⟩ := hg.sound hn
  rw [hg.trees_eq hn, chainParts, mem_append, hg.tree_eq hn, mem_parts_iff, hg.mem_operands_iff hn, mem_bodies_iff]
  constructor
  · rintro (⟨hen, rfl | ⟨e, he, c, htarget, hs⟩ | ⟨e, he, c, htarget, hs⟩⟩ | hs)
    · exact .inl ⟨hen, rfl⟩
    · have hget := (Table.get?_eq_some_iff hc.nodup_valueSlots).mpr he
      exact .inr ⟨c, .slot hn hen (hc.ne_nextPosition hget) (.value he htarget), hs⟩
    · obtain ⟨hne, -⟩ := ChainPosition.slot_of_isOf hc (Table.contains_iff.mpr (List.mem_map_of_mem he))
      exact .inr ⟨c, .slot hn hen hne (.statement (htarget ▸ he)), hs⟩
    · cases hnext : n.next with
      | none =>
        rw [hnext, trees, treesWithin_none] at hs
        cases hs
      | some c => exact .inr ⟨c, .next hn hnext, hnext ▸ hs⟩
  · rintro (⟨hen, rfl⟩ | ⟨c, hfollows, hs⟩)
    · exact .inl ⟨hen, .inl rfl⟩
    cases hfollows with
    | next hn' hnext =>
      cases hn.symm.trans hn'
      exact .inr (hnext ▸ hs)
    | slot hn' hen hne hholds =>
      cases hn.symm.trans hn'
      refine .inl ⟨hen, .inr ?_⟩
      cases hholds with
      | value he htarget => exact .inl ⟨_, he, c, htarget, hs⟩
      | statement he => exact .inr ⟨_, he, c, rfl, hs⟩
      | next _ => exact absurd rfl hne

theorem exists_of_follows (hg : g.Forest) (hn : g.get? h = some n) (hfollows : g.Follows h c) :
    ∃ k m, n.at? k = some c ∧ g.get? c = some m := by
  obtain ⟨-, spec, hc⟩ := hg.sound hn
  obtain ⟨k, hat⟩ : ∃ k, n.at? k = some c := by
    cases hfollows with
    | next hn' hnext =>
      cases hn.symm.trans hn'
      exact ⟨_, (n.at?_nextPosition).trans hnext⟩
    | slot hn' _ _ hholds =>
      cases hn.symm.trans hn'
      exact ⟨_, (Node.holds_iff hc).mp hholds⟩
  obtain ⟨m, hm, -⟩ := hg.exists_child hn hat
  exact ⟨k, m, hat, hm⟩

theorem mem_chainParts_iff (hg : g.Forest) (hn : g.get? h = some n) : s ∈ chainParts (g.trees (some h)) ↔ ∃ x m,
      Relation.ReflTransGen g.Follows h x ∧ g.get? x = some m ∧ m.enabled = true ∧ s = g.tree m := by
  refine hg.induction_inwards (P := fun n => ∀ {h}, g.get? h = some n →
    (s ∈ chainParts (g.trees (some h)) ↔ ∃ x m, Relation.ReflTransGen g.Follows h x
      ∧ g.get? x = some m ∧ m.enabled = true ∧ s = g.tree m)) ?_ hn hn
  intro _ n _ ih h hn
  rw [hg.mem_chainParts_step hn]
  constructor
  · rintro (⟨hen, rfl⟩ | ⟨c, hfollows, hs⟩)
    · exact ⟨h, n, .refl, hn, hen, rfl⟩
    · obtain ⟨k, m, hat, hm⟩ := hg.exists_of_follows hn hfollows
      obtain ⟨x, m', hx, hm', hen, rfl⟩ := (ih hat hm hm).mp hs
      exact ⟨x, m', .head hfollows hx, hm', hen, rfl⟩
  · rintro ⟨x, m, hx, hm, hen, rfl⟩
    rcases Relation.ReflTransGen.cases_head hx with rfl | ⟨c, hfollows, hx⟩
    · cases hn.symm.trans hm
      exact .inl ⟨hen, rfl⟩
    · obtain ⟨k, m', hat, hm'⟩ := hg.exists_of_follows hn hfollows
      exact .inr ⟨c, hfollows, (ih hat hm' hm').mpr ⟨x, m, hx, hm, hen, rfl⟩⟩

end Forest

end Graph

/-! ## The blocks of a tree -/

mutual
/-- **The blocks of a tree**, each before what is plugged into it. -/
def BlockTree.nodes : BlockTree → List Node
  | .mk n _ operands bodies => n :: (operandNodes operands ++ bodyNodes bodies)
def operandNodes : Operands → List Node
  | [] => []
  | (_, none) :: rest => operandNodes rest
  | (_, some t) :: rest => t.nodes ++ operandNodes rest
def bodyNodes : Bodies → List Node
  | [] => []
  | (_, chain) :: rest => chainNodes chain ++ bodyNodes rest
def chainNodes : List BlockTree → List Node
  | [] => []
  | t :: rest => t.nodes ++ chainNodes rest
end

theorem operandNodes_eq_flatMap (operands : Operands) :
    operandNodes operands = operands.flatMap fun e => chainNodes e.2.toList := by
  induction operands with
  | nil => rfl
  | cons e rest ih =>
    obtain ⟨slot, _ | t⟩ := e
    · exact ih
    · rw [operandNodes, ih, flatMap_cons, toList_some, chainNodes, chainNodes, append_nil]

theorem bodyNodes_eq_flatMap (bodies : Bodies) : bodyNodes bodies = bodies.flatMap fun e => chainNodes e.2 := by
  induction bodies with
  | nil => rfl
  | cons e rest ih => rw [bodyNodes, ih, flatMap_cons]

open Graph in
/-- **The blocks of the trees of a chain** are those below its first block. -/
theorem Graph.Forest.chainNodes_trees (hg : g.Forest) (hn : g.get? h = some n) :
    chainNodes (g.trees (some h)) = g.subtree n := by
  refine hg.induction_inwards (P := fun n => ∀ {h}, g.get? h = some n →
    chainNodes (g.trees (some h)) = g.subtree n) ?_ hn hn
  intro _ n _ ih h hn
  obtain ⟨-, spec, hc⟩ := hg.sound hn
  have hsocket : ∀ {k target}, n.at? k = target → chainNodes (g.trees target)
      = target.toList.flatMap fun c => (g.get? c).toList.flatMap g.subtree := by
    rintro k (_ | c) hat
    · rw [trees_none]
      rfl
    · obtain ⟨m, hm, -⟩ := hg.exists_child hn hat
      simp [ih hat hm hm, hm]
  rw [hg.trees_eq hn, chainNodes, hg.tree_eq hn, BlockTree.nodes, operandNodes_eq_flatMap, bodyNodes_eq_flatMap,
    flatMap_map, flatMap_map, hsocket n.at?_nextPosition, hg.subtree_eq hn, childrenOf, Node.targets]
  simp only [flatMap_append, cons_append, filterMap_eq_flatMap_toList, flatMap_assoc]
  rw [flatMap_congr fun e he => by rw [← hg.trees_of_valueSlot hn he, hsocket (at?_of_mem_valueSlots hc he)],
    flatMap_congr fun e he => hsocket (at?_of_mem_statementSlots hc he)]

mutual
theorem BlockTree.parts_sublist : ∀ t : BlockTree, (t.parts.map BlockTree.node).Sublist t.nodes
  | .mk n attached operands bodies => by
    rw [BlockTree.parts]
    split
    · rw [map_cons, map_append]
      exact ((operandParts_sublist operands).append (bodyParts_sublist bodies)).cons_cons n
    · exact nil_sublist _
theorem operandParts_sublist : ∀ operands : Operands,
    ((operandParts operands).map BlockTree.node).Sublist (operandNodes operands)
  | [] => nil_sublist _
  | (_, none) :: rest => operandParts_sublist rest
  | (_, some t) :: rest => by
    rw [operandParts, map_append]
    exact t.parts_sublist.append (operandParts_sublist rest)
theorem bodyParts_sublist : ∀ bodies : Bodies,
    ((bodyParts bodies).map BlockTree.node).Sublist (bodyNodes bodies)
  | [] => nil_sublist _
  | (_, chain) :: rest => by
    rw [bodyParts, map_append]
    exact (chainParts_sublist chain).append (bodyParts_sublist rest)
theorem chainParts_sublist : ∀ chain : List BlockTree,
    ((chainParts chain).map BlockTree.node).Sublist (chainNodes chain)
  | [] => nil_sublist _
  | t :: rest => by
    rw [chainParts, map_append]
    exact t.parts_sublist.append (chainParts_sublist rest)
end

end NqcBlocks
