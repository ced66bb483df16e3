import NqcBlocks.Proofs.Graph.Runs
import NqcBlocks.Proofs.Program.Emission

/-!
# The plan in closed form

Making the plan resolves the names of tasks, since two tasks are the same if their names are resolved
to the same. `Graph.plan` is the plan with no resolving in it: tasks are told apart by the names that
their blocks have. The two agree because names in use are spelled alike only if they are the same
(`Resolver.spell_injective`), and every name of a task is in use.
-/

namespace NqcBlocks

open Gen List Plan

variable {n : Node} {h : Handle} {spec : BlockSpec}

/-! ## Names in use -/

theorem Json.truthy?_text (s : String) : (Json.text s).truthy? = if s = "" then none else some (.text s) := by
  by_cases hs : s = ""
  · subst hs
    rfl
  · have hempty : s.isEmpty = false := by
      rw [Bool.eq_false_iff]
      exact fun h => hs (String.isEmpty_iff.mp h)
    rw [if_neg hs]
    show (if (!s.isEmpty) = true then some (Json.text s) else none) = _
    rw [hempty]
    rfl

namespace Graph

def resolver (g : Graph) (policy : ReservedPolicy) : Resolver := { policy, taken := g.userNames }

namespace Forest

variable {g : Graph}

theorem spec?_eq (hg : g.Forest) (hc : n.Conforms spec) : g.spec? n = some spec := by
  unfold spec?
  rw [hg.builtin, Catalog.spec?_builtin, hc.known]

theorem mem_identifiers_iff (hg : g.Forest) {j : Json} : j ∈ g.identifiers
    ↔ ∃ n ∈ g.nodes, ∃ spec, n.Conforms spec ∧ ∃ f ∈ spec.fields, f.kind = .identifier
      ∧ n.text f.name ≠ "" ∧ j = .text (n.text f.name) := by
  unfold identifiers
  rw [mem_flatMap]
  refine exists_congr fun n => and_congr_right fun hn => ?_
  obtain ⟨h, hn⟩ := mem_nodes_iff.mp hn
  obtain ⟨-, spec, hc⟩ := hg.sound hn
  unfold identifiersOf
  rw [hg.spec?_eq hc]
  simp only [mem_filterMap, mem_filter, beq_iff_eq]
  have htruthy : ∀ {s : String}, (Json.text s).truthy? = some j ↔ s ≠ "" ∧ j = .text s := by
    intro s
    rw [Json.truthy?_text]
    split
    · next hs => simp [hs]
    · next hs => simp [hs, eq_comm]
  constructor
  · rintro ⟨f, ⟨hf, hk⟩, hj⟩
    rw [(hc.identifier hf hk).1, Option.bind_some, htruthy] at hj
    exact ⟨spec, hc, f, hf, hk, hj⟩
  · rintro ⟨spec', hc', f, hf, hk, hj⟩
    obtain rfl : spec = spec' := Option.some.inj (hc.known.symm.trans hc'.known)
    refine ⟨f, ⟨hf, hk⟩, ?_⟩
    rw [(hc.identifier hf hk).1, Option.bind_some, htruthy]
    exact hj

theorem isNamed (hg : g.Forest) : g.isNamed = true := by
  unfold Graph.isNamed
  rw [all_eq_true]
  intro j hj
  obtain ⟨n, -, spec, -, f, -, -, -, rfl⟩ := hg.mem_identifiers_iff.mp hj
  rfl

theorem mem_userNames (hg : g.Forest) (hn : g.get? h = some n) (hc : n.Conforms spec)
    {f : FieldSpec} (hf : f ∈ spec.fields) (hk : f.kind = .identifier) (hne : n.text f.name ≠ "") :
    .text (n.text f.name) ∈ g.userNames := by
  unfold userNames
  rw [Name.mem_distinct_text, mem_filterMap]
  exact ⟨.text (n.text f.name), hg.mem_identifiers_iff.mpr
    ⟨n, mem_nodes_iff.mpr ⟨h, hn⟩, spec, hc, f, hf, hk, hne, rfl⟩, rfl⟩

theorem taskName_mem_userNames (hg : g.Forest) (hn : g.get? h = some n) (hk : n.kind = .namedTask)
    (hne : n.text "NAME" ≠ "") : .text (n.text "NAME") ∈ g.userNames := by
  obtain ⟨-, spec, hc⟩ := hg.sound hn
  have hknown := hc.known
  rw [hk] at hknown
  cases hknown
  exact hg.mem_userNames hn hc (f := { Builtin.identifier "NAME" Builtin.defaultTaskName with
    allowEmpty := true }) mem_cons_self rfl hne

end Forest

end Graph

/-! ## The plan -/

namespace Plan

def put (r : Resolver) (p : Plan) (seen : List String) (n : Node) : Plan × List String :=
  if n.enabled then
    match n.kind with
    | .mainTask =>
      if p.hasMain then
        (p.skip n.handle "Only the first main task is used; this one is skipped.", seen)
      else ({ p.addTask n.handle with hasMain := true }, seen)
    | .namedTask =>
      if n.text "NAME" = "" then (p.skip n.handle "Task without a name is skipped.", seen)
      else if n.text "NAME" ∈ seen then
        (p.skip n.handle ("Task \"" ++ r.spell .task (n.text "NAME")
          ++ "\" is defined more than once; later copies are skipped."), seen)
      else (p.addTask n.handle, n.text "NAME" :: seen)
    | _ => ({ p with loose := p.loose ++ [n.handle] }, seen)
  else (p, seen)

def putAll (r : Resolver) : Plan → List String → List Node → Plan
  | p, _, [] => p
  | p, seen, n :: rest => putAll r (put r p seen n).1 (put r p seen n).2 rest

end Plan

def Node.taskNames (n : Node) : Set ReservedNameError :=
  { u | n.enabled = true ∧ n.kind = .namedTask ∧ n.text "NAME" ≠ "" ∧ u = ⟨n.text "NAME", .task⟩ }

def Graph.plan (g : Graph) (r : Resolver) : Plan := Plan.putAll r {} [] g.topBlocks

section Ends

variable {g g₀ : Graph} {r : Resolver}

def Plan.seenNames (r : Resolver) (seen : List String) : List Name :=
  seen.map fun name => .text (r.spell .task name)

theorem Node.Conforms.taskName (hc : n.Conforms spec) (hk : n.kind = .namedTask) : nameOf? n
      = if n.text "NAME" = "" then none else some (.text (n.text "NAME")) := by
  have hknown := hc.known
  rw [hk] at hknown
  rcases hknown with ⟨⟩
  have hget : n.fields.get? "NAME" = some (.text (n.text "NAME")) := (hc.identifier mem_cons_self rfl).1
  unfold nameOf?
  rw [hget, Option.bind_some, Json.truthy?_text]

theorem ends_place (hg : g.Forest) (hr : r.taken = g.userNames) (hn : g.get? h = some n)
    {seen : List String} (hseen : ∀ a ∈ seen, .text a ∈ r.taken) (p : Plan) (c : Context) :
    Ends g₀ r (place g p (seenNames r seen) n) c n.taskNames ((put r p seen n).1, seenNames r (put r p seen n).2) c
      ∧ ∀ a ∈ (put r p seen n).2, .text a ∈ r.taken := by
  obtain ⟨-, spec, hc⟩ := hg.sound hn
  have hknown := hc.known
  by_cases hname : n.enabled = true ∧ n.kind = .namedTask ∧ n.text "NAME" ≠ ""
  · obtain ⟨hen, hk, hne⟩ := hname
    have huses : n.taskNames = {⟨n.text "NAME", .task⟩} := by
      ext u
      simp [Node.taskNames, hen, hk, hne]
    have htask := hc.taskName hk
    rw [hk] at hknown
    rcases hknown with ⟨⟩
    have htaken : .text (n.text "NAME") ∈ r.taken := hr ▸ hg.taskName_mem_userNames hn hk hne
    have hin : (Name.text (r.spell .task (n.text "NAME"))).isIn (seenNames r seen) = true
        ↔ n.text "NAME" ∈ seen := by
      rw [Name.isIn_text_iff]
      unfold seenNames
      constructor
      · intro hmem
        obtain ⟨a, ha, heq⟩ := mem_map.mp hmem
        injection heq with heq
        rw [← Resolver.spell_injective (hseen a ha) htaken heq]
        exact ha
      · exact fun hmem => mem_map.mpr ⟨_, hmem, rfl⟩
    unfold place put
    rw [hg.spec?_eq hc, hen, hk, huses]
    dsimp only [Bool.not_true, Option.map_some]
    rw [htask, if_neg hne, if_neg hne]
    by_cases hmem : n.text "NAME" ∈ seen
    · rw [if_pos hmem]
      refine ⟨(ends_resolveValue .task (n.text "NAME")).bind_last ?_, hseen⟩
      rw [if_pos (hin.mpr hmem)]
      exact .pure _ c
    · rw [if_neg hmem]
      refine ⟨(ends_resolveValue .task (n.text "NAME")).bind_last ?_, forall_mem_cons.mpr ⟨htaken, hseen⟩⟩
      rw [if_neg fun h => hmem (hin.mp h)]
      exact .pure _ c
  · -- a block that is no enabled task with a name resolves nothing
    have huses : n.taskNames = ∅ := by
      ext u
      simp only [Node.taskNames, Set.mem_ofPred_eq, Set.mem_empty_iff_false, iff_false]
      exact fun ⟨hen, hk, hne, _⟩ => hname ⟨hen, hk, hne⟩
    have hplace : place g p (seenNames r seen) n = pure ((put r p seen n).1, seenNames r seen)
        ∧ (put r p seen n).2 = seen := by
      unfold place put
      rw [hg.spec?_eq hc]
      cases hen : n.enabled with
      | false => exact ⟨rfl, rfl⟩
      | true =>
        cases hk : n.kind <;> rw [hk] at hknown <;> rcases hknown with ⟨⟩
        case mainTask => cases p.hasMain <;> simp
        case namedTask =>
          have hempty : n.text "NAME" = "" := not_not.mp fun hne => hname ⟨hen, hk, hne⟩
          simp [hc.taskName hk, hempty]
        all_goals exact ⟨rfl, rfl⟩
    rw [hplace.1, hplace.2, huses]
    exact ⟨.pure _ c, hseen⟩

theorem ends_placeAll (hg : g.Forest) (hr : r.taken = g.userNames) (c : Context) :
    ∀ {ns : List Node}, (∀ n ∈ ns, ∃ h, g.get? h = some n) → ∀ seen : List String,
      (∀ a ∈ seen, .text a ∈ r.taken) → ∀ p : Plan,
      Ends g₀ r (placeAll g p (seenNames r seen) ns) c { u | ∃ n ∈ ns, u ∈ n.taskNames } (putAll r p seen ns) c
  | [], _, seen, _, p => by
    refine (Ends.pure p c).congr_uses ?_
    ext u
    simp
  | n :: ns, hns, seen, hseen, p => by
    obtain ⟨h, hn⟩ := hns n mem_cons_self
    obtain ⟨hplace, hseen'⟩ := ends_place hg hr hn hseen p c
    rw [placeAll, putAll]
    refine (hplace.bind (ends_placeAll hg hr c (fun m hm => hns m (mem_cons_of_mem _ hm))
      _ hseen' _)).congr_uses ?_
    ext u
    simp

theorem ends_plan (hg : g.Forest) (hr : r.taken = g.userNames) (c : Context) :
    Ends g₀ r (ofGraph g) c { u | ∃ n ∈ g.topBlocks, u ∈ n.taskNames } (g.plan r) c := by
  refine ends_placeAll hg hr c (fun n hn => ?_) [] (by simp) {}
  exact Graph.mem_nodes_iff.mp (mem_filter.mp hn).1

end Ends

/-! ## Which blocks are planned -/

namespace Plan

def Admits (p : Plan) (seen : List String) (before : List Node) (n : Node) : Prop :=
  n.enabled = true
    ∧ (n.kind = .mainTask ∧ p.hasMain = false
        ∧ (∀ m ∈ before, m.enabled = true → m.kind ≠ .mainTask)
      ∨ n.kind = .namedTask ∧ n.text "NAME" ≠ "" ∧ n.text "NAME" ∉ seen
        ∧ ∀ m ∈ before, m.enabled = true → m.kind = .namedTask → m.text "NAME" ≠ n.text "NAME")

variable {r : Resolver}

theorem put_spec (p : Plan) (seen : List String) (n : Node) :
    (∀ h, h ∈ (put r p seen n).1.tasks ↔ h ∈ p.tasks ∨ p.Admits seen [] n ∧ h = n.handle)
      ∧ ((put r p seen n).1.hasMain = true ↔ p.hasMain = true ∨ n.enabled = true ∧ n.kind = .mainTask)
      ∧ (∀ a, a ≠ "" → (a ∈ (put r p seen n).2
        ↔ a ∈ seen ∨ n.enabled = true ∧ n.kind = .namedTask ∧ a = n.text "NAME"))
      ∧ ∀ h, h ∈ (put r p seen n).1.loose ↔ h ∈ p.loose ∨ n.enabled = true
        ∧ n.kind ≠ .mainTask ∧ n.kind ≠ .namedTask ∧ h = n.handle := by
  unfold put Admits
  by_cases hen : n.enabled = true
  · rw [if_pos hen]
    cases hk : n.kind
    case mainTask =>
      cases hm : p.hasMain <;> simp [hen, addTask, skip, hm]
    case namedTask =>
      by_cases hne : n.text "NAME" = ""
      · simp +contextual [hen, hne, skip]
      · by_cases hmem : n.text "NAME" ∈ seen
        · simp +contextual [hen, hne, hmem, skip]
        · simp [hen, hne, hmem, addTask, or_comm]
    all_goals simp [hen]
  · rw [if_neg hen]
    simp [hen]

theorem admits_put (p : Plan) (seen : List String) (n : Node) (before : List Node) (m : Node) :
    (put r p seen n).1.Admits (put r p seen n).2 before m ↔ p.Admits seen (n :: before) m := by
  obtain ⟨-, hmain, hseen, -⟩ := put_spec (r := r) p seen n
  unfold Admits
  have hmain' : (put r p seen n).1.hasMain = false ↔ p.hasMain = false ∧ (n.enabled = true → n.kind ≠ .mainTask) := by
    rw [← Bool.not_eq_true, hmain, not_or, Bool.not_eq_true, not_and]
  refine and_congr_right fun _ => or_congr ?_ ?_
  · rw [hmain', forall_mem_cons]
    exact and_congr_right fun _ => and_assoc
  · refine and_congr_right fun _ => and_congr_right fun hne => ?_
    rw [hseen _ hne, not_or, forall_mem_cons, and_assoc]
    refine and_congr_right fun _ => and_congr_left fun _ => ?_
    exact ⟨fun h hen hk he => h ⟨hen, hk, he.symm⟩, fun h ⟨hen, hk, he⟩ => h hen hk he.symm⟩

theorem mem_tasks_putAll : ∀ {ns : List Node} {p : Plan} {seen : List String},
    h ∈ (putAll r p seen ns).tasks ↔ h ∈ p.tasks ∨ ∃ before n after, ns = before ++ n :: after
      ∧ p.Admits seen before n ∧ h = n.handle
  | [], p, seen => by simp [putAll]
  | n :: ns, p, seen => by
    have htasks := (put_spec (r := r) p seen n).1
    have hadmits := admits_put (r := r) p seen n
    rw [putAll, mem_tasks_putAll, htasks, or_assoc]
    refine or_congr_right ⟨?_, ?_⟩
    · rintro (⟨hn, hh⟩ | ⟨before, m, after, rfl, hm, hh⟩)
      · exact ⟨[], n, ns, rfl, hn, hh⟩
      · exact ⟨n :: before, m, after, rfl, (hadmits before m).mp hm, hh⟩
    · rintro ⟨before, m, after, heq, hm, hh⟩
      cases before with
      | nil =>
        cases heq
        exact .inl ⟨hm, hh⟩
      | cons b before =>
        injection heq with hb heq
        subst hb
        exact .inr ⟨before, m, after, heq, (hadmits before m).mpr hm, hh⟩

theorem mem_loose_putAll : ∀ {ns : List Node} {p : Plan} {seen : List String},
    h ∈ (putAll r p seen ns).loose ↔ h ∈ p.loose ∨ ∃ n ∈ ns, n.enabled = true
      ∧ n.kind ≠ .mainTask ∧ n.kind ≠ .namedTask ∧ h = n.handle
  | [], p, seen => by simp [putAll]
  | n :: ns, p, seen => by
    rw [putAll, mem_loose_putAll, (put_spec p seen n).2.2.2, exists_mem_cons_iff, or_assoc]

theorem hasMain_putAll : ∀ {ns : List Node} {p : Plan} {seen : List String}, (putAll r p seen ns).hasMain = true
      ↔ p.hasMain = true ∨ ∃ n ∈ ns, n.enabled = true ∧ n.kind = .mainTask
  | [], p, seen => by simp [putAll]
  | n :: ns, p, seen => by
    rw [putAll, hasMain_putAll, (put_spec p seen n).2.1, exists_mem_cons_iff, or_assoc]

end Plan

namespace Graph

/-- **A block is a task of the program**: it is enabled, and it is the first enabled main task, or it has
a name and is the first enabled task with it. -/
def Planned (g : Graph) (n : Node) : Prop :=
  g.get? n.handle = some n ∧ n.enabled = true
    ∧ (n.kind = .mainTask ∧ (∀ m, g.get? m.handle = some m → m.enabled = true →
          m.kind = .mainTask → n.handle ≤ m.handle)
      ∨ n.kind = .namedTask ∧ n.text "NAME" ≠ "" ∧ ∀ m, g.get? m.handle = some m →
          m.enabled = true → m.kind = .namedTask → m.text "NAME" = n.text "NAME" →
          n.handle ≤ m.handle)

theorem Planned.main_le {g : Graph} {m : Node} (hn : g.Planned n) (hk : n.kind = .mainTask) (hm : g.Planned m)
    (hmk : m.kind = .mainTask) : n.handle ≤ m.handle := by
  obtain ⟨-, -, ⟨-, hfirst⟩ | ⟨hk', -⟩⟩ := hn
  · exact hfirst m hm.1 hm.2.1 hmk
  · cases hk.symm.trans hk'

theorem Planned.named {g : Graph} (hn : g.Planned n) (hk : n.kind = .namedTask) : n.text "NAME" ≠ ""
    ∧ ∀ m, g.Planned m → m.kind = .namedTask → m.text "NAME" = n.text "NAME" → n.handle ≤ m.handle := by
  obtain ⟨-, -, ⟨hk', -⟩ | ⟨-, hne, hfirst⟩⟩ := hn
  · cases hk.symm.trans hk'
  · exact ⟨hne, fun m hm => hfirst m hm.1 hm.2.1⟩

def Loose (g : Graph) (n : Node) : Prop :=
  g.get? n.handle = some n ∧ n.enabled = true ∧ n.parent = none ∧ n.kind ≠ .mainTask
    ∧ n.kind ≠ .namedTask

namespace Forest

variable {g : Graph}

theorem mem_topBlocks_of_isTask (hg : g.Forest) (hn : g.get? n.handle = some n)
    (hk : n.kind = .mainTask ∨ n.kind = .namedTask) : n ∈ g.topBlocks :=
  hg.mem_topBlocks_iff.mpr ⟨hn, (hg.typedForest.tasks n (hg.mem_nodes_iff_get?.mpr hn) hk).1⟩

theorem mem_before_iff (hg : g.Forest) {before after : List Node}
    (h : g.topBlocks = before ++ n :: after) {m : Node} (hm : m ∈ g.topBlocks) :
    m ∈ before ↔ m.handle < n.handle := by
  have hsorted : (g.topBlocks.map (·.handle)).Pairwise (· < ·) :=
    hg.typedForest.ordered.sublist (List.filter_sublist.map _)
  rw [pairwise_map, h] at hsorted
  rw [h] at hm
  exact (mem_earlier_iff hsorted).trans (and_iff_right hm)

theorem admits_of_planned (hg : g.Forest) (hn : g.Planned n) {before after : List Node}
    (heq : g.topBlocks = before ++ n :: after) : ({} : Plan).Admits [] before n := by
  obtain ⟨-, hen, hn⟩ := hn
  have hbefore : ∀ m ∈ before, g.get? m.handle = some m ∧ m.handle < n.handle := by
    intro m hm
    have hm' : m ∈ g.topBlocks := heq ▸ mem_append_left _ hm
    exact ⟨(hg.mem_topBlocks_iff.mp hm').1, (hg.mem_before_iff heq hm').mp hm⟩
  refine ⟨hen, ?_⟩
  rcases hn with ⟨hk, hfirst⟩ | ⟨hk, hne, hfirst⟩
  · refine .inl ⟨hk, rfl, fun m hm hmen hmk => ?_⟩
    obtain ⟨hmget, hlt⟩ := hbefore m hm
    exact Nat.not_le_of_lt hlt (hfirst m hmget hmen hmk)
  · refine .inr ⟨hk, hne, not_mem_nil, fun m hm hmen hmk hname => ?_⟩
    obtain ⟨hmget, hlt⟩ := hbefore m hm
    exact Nat.not_le_of_lt hlt (hfirst m hmget hmen hmk hname)

theorem mem_plan_tasks (hg : g.Forest) {r : Resolver} : h ∈ (g.plan r).tasks ↔ ∃ n, g.Planned n ∧ h = n.handle := by
  unfold plan
  rw [mem_tasks_putAll]
  constructor
  · rintro (h | ⟨before, n, after, heq, ⟨hen, hn⟩, hh⟩)
    · cases h
    · have hget : g.get? n.handle = some n := (hg.mem_topBlocks_iff.mp (heq ▸ by simp)).1
      -- a task of the same sort that came before would have been met
      have hle : ∀ m, g.get? m.handle = some m → (m.kind = .mainTask ∨ m.kind = .namedTask) →
          m ∉ before → n.handle ≤ m.handle := by
        intro m hm hk hnot
        rw [hg.mem_before_iff heq (hg.mem_topBlocks_of_isTask hm hk)] at hnot
        exact Nat.le_of_not_lt hnot
      refine ⟨n, ⟨hget, hen, ?_⟩, hh⟩
      rcases hn with ⟨hk, -, hfirst⟩ | ⟨hk, hne, -, hfirst⟩
      · exact .inl ⟨hk, fun m hm hmen hmk =>
          hle m hm (.inl hmk) fun hmem => hfirst m hmem hmen hmk⟩
      · exact .inr ⟨hk, hne, fun m hm hmen hmk hname =>
          hle m hm (.inr hmk) fun hmem => hfirst m hmem hmen hmk hname⟩
  · rintro ⟨n, hn, hh⟩
    have hmem := hg.mem_topBlocks_of_isTask hn.1 (hn.2.2.imp (fun h => h.1) (fun h => h.1))
    obtain ⟨before, after, heq⟩ := append_of_mem hmem
    exact .inr ⟨before, n, after, heq, hg.admits_of_planned hn heq, hh⟩

theorem mem_plan_loose (hg : g.Forest) {r : Resolver} : h ∈ (g.plan r).loose ↔ ∃ n, g.Loose n ∧ h = n.handle := by
  unfold plan
  rw [mem_loose_putAll]
  simp only [hg.mem_topBlocks_iff, Loose]
  constructor
  · rintro (h | ⟨n, ⟨hn, hp⟩, hen, hmain, hnamed, hh⟩)
    · cases h
    · exact ⟨n, ⟨hn, hen, hp, hmain, hnamed⟩, hh⟩
  · rintro ⟨n, ⟨hn, hen, hp, hmain, hnamed⟩, hh⟩
    exact .inr ⟨n, ⟨hn, hp⟩, hen, hmain, hnamed, hh⟩

end Forest

end Graph

end NqcBlocks
