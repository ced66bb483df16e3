import NqcBlocks.Proofs.Nqc.Writing
import NqcBlocks.Proofs.Program.Reference

/-!
# Names and the words of the language

The names of a program share its text with words whose meaning is fixed: keywords, functions and
constants. `Node.ownWords` are the words that a block writes of itself, with no name filled in and nothing
plugged in, and `fixedWords` are all words that blocks write so (`ownWords_subset`).
-/

namespace NqcBlocks

open List String Resolver

variable {w : String} {rest : List Stmt}

namespace Nqc

def Token.word? : Token → Option String
  | .word text => some text
  | _ => none

def wordsIn (s : String) : List String := (tokens s).filterMap Token.word?

def sensorWords : List String :=
  ["SENSOR_TYPE_TOUCH", "SENSOR_TYPE_LIGHT", "SENSOR_TYPE_ROTATION", "SENSOR_TYPE_TEMPERATURE",
    "SENSOR_MODE_BOOL", "SENSOR_MODE_PERCENT", "SENSOR_MODE_ROTATION", "SENSOR_MODE_CELSIUS"]

/-- **The words with a meaning of their own** that a program has: those that are reserved, the constants
for sensors and sounds, and the name of the main task. -/
def fixedWords : List String :=
  entryName :: (reservedWords ++ sensorWords ++ Builtin.soundOptions)

def Fixed (s : String) : Prop := wordsIn s ⊆ fixedWords

instance (s : String) : Decidable (Fixed s) := inferInstanceAs (Decidable (wordsIn s ⊆ fixedWords))

namespace Fixed

variable {s t : String}

theorem between {mid : String} (hs : Fixed s) (hmid : Fixed mid) (ht : Fixed t)
    (hstarts : mid.toList.head?.any isApart = true)
    (hends : mid.toList.getLast?.any isApart = true) : Fixed (s ++ mid ++ t) := by
  unfold Fixed wordsIn
  rw [tokens_between s t hstarts hends, filterMap_append, filterMap_append]
  exact List.append_subset.mpr ⟨hs, List.append_subset.mpr ⟨hmid, ht⟩⟩

theorem append_of_starts (hs : Fixed s) (ht : Fixed t) (h : t.toList.head?.all isApart = true) : Fixed (s ++ t) := by
  unfold Fixed wordsIn
  rw [tokens_append_of_starts s h, filterMap_append]
  exact List.append_subset.mpr ⟨hs, ht⟩

theorem binary (op : Operator) (hs : Fixed s) (ht : Fixed t) : Fixed (s ++ " " ++ op.symbol ++ " " ++ t) := by
  have hop : op.token.word? = none := by cases op <;> rfl
  unfold Fixed wordsIn
  rw [tokens_binary, filterMap_append, filterMap_cons, hop]
  exact List.append_subset.mpr ⟨hs, ht⟩

end Fixed

theorem fixed_intercalate : ∀ {texts : List String}, (∀ s ∈ texts, Fixed s) → Fixed (", ".intercalate texts)
  | [], _ => by decide
  | [s], h => by
    rw [String.intercalate_singleton]
    exact h s mem_cons_self
  | s :: s' :: rest, h => by
    rw [String.intercalate_cons_cons]
    exact (h s mem_cons_self).between (by decide)
      (fixed_intercalate fun s hs => h s (mem_cons_of_mem _ hs)) (by decide) (by decide)

theorem fixed_call_cons {margin function : String} {arguments : List Expr} (hf : Fixed function)
    (harguments : ∀ e ∈ arguments, Fixed e.text) (hrest : Fixed (stmtsText margin rest)) :
    Fixed (stmtsText margin (.call function arguments :: rest)) := by
  have htexts : Fixed (", ".intercalate (arguments.map Expr.text)) := by
    refine fixed_intercalate fun s hs => ?_
    obtain ⟨e, he, rfl⟩ := mem_map.mp hs
    exact harguments e he
  rw [stmtsText, Stmt.text]
  exact (hf.between (by decide) htexts (by decide) (by decide)).between (by decide) hrest (by decide) (by decide)

theorem fixed_expression {margin : String} {e : Expr} (h : Fixed e.text) :
    Fixed (stmtsText margin [.expression e]) := by
  rw [stmtsText, Stmt.text]
  exact h.between (by decide) (by rw [stmtsText]; decide) (by decide) (by decide)

theorem fixed_pieces : ∀ s ∈ ["50", "1", "true", "10", "false", "0"] ++ ["if", " else if", " () \x7b\n\x7d",
    " else " ++ (braced "" (stmtsText "" []) ++ "\n"), "SetPower", "OnFwd", "OnRev", "SetSensorType",
    "SetSensorMode", "ClearSensor"], Fixed s := by
  decide +kernel

theorem fixed_armsText : ∀ {arms : List (Expr × List Stmt)},
    (∀ arm ∈ arms, arm = (.atom "", [])) → ∀ {word : String}, Fixed word → Fixed (armsText "" word arms)
  | [], _, _, _ => by
    rw [armsText]
    decide
  | arm :: rest, h, word, hword => by
    have hrest := fixed_armsText (fun a ha => h a (mem_cons_of_mem _ ha)) (fixed_pieces " else if" (by simp))
    have htext : armsText "" word (arm :: rest) = word ++ " () \x7b\n\x7d" ++ armsText "" " else if" rest := by
      rw [h arm mem_cons_self, armsText]
      simp only [String.append_assoc]
      rfl
    rw [htext]
    exact hword.between (fixed_pieces _ (by simp)) hrest (by decide) (by decide)

end Nqc

open Nqc

def Node.template (n : Node) (counter : Bool) : String :=
  stmtsText "" (nodeStmts ⟨fun _ _ => "", fun _ => ""⟩ n counter (fun _ => .atom "") fun _ => [])

def Node.ownWords (n : Node) (counter : Bool) : List String :=
  wordsIn (n.template counter) ++ n.valueSlots.flatMap fun e => wordsIn e.2.default

section Templates

variable {n : Node} {spec : BlockSpec}

theorem fixed_branches (count : Nat) (hasElse : Bool) :
    Fixed (stmtsText "" [.branches (arms (fun _ => .atom "") (fun _ => []) count)
      (if hasElse then some [] else none)]) := by
  have harms : Fixed (armsText "" "if" (arms (fun _ => .atom "") (fun _ => []) count)) := by
    refine fixed_armsText (fun arm harm => ?_) (fixed_pieces _ (by simp))
    obtain ⟨i, -, rfl⟩ := mem_map.mp harm
    rfl
  cases hasElse with
  | false =>
    show Fixed (_ ++ "\n" ++ "")
    exact harms.between (by decide) (by decide) (by decide) (by decide)
  | true =>
    show Fixed (_ ++ " else " ++ braced "" (stmtsText "" []) ++ "\n" ++ "")
    rw [append_empty, String.append_assoc, String.append_assoc]
    exact harms.append_of_starts (fixed_pieces _ (by simp)) (by decide)

theorem fixed_constantCall {function : String} {constants : List String} (hf : Fixed function)
    (h : ∀ w ∈ constants, Fixed w) (hrest : Fixed (stmtsText "" rest)) :
    Fixed (stmtsText "" (constantCall function constants :: rest)) := by
  refine fixed_call_cons hf (fun e he => ?_) hrest
  obtain ⟨w, hw, rfl⟩ := mem_map.mp he
  exact h w hw

theorem fixed_setPower (hw : Fixed w) (hrest : Fixed (stmtsText "" rest)) :
    Fixed (stmtsText "" (setPower w (.atom "") :: rest)) :=
  fixed_call_cons (fixed_pieces _ (by simp)) (by simpa using ⟨hw, by decide⟩) hrest

theorem fixed_motorOn (hw : Fixed w) (direction : String) : Fixed (stmtsText "" [motorOn w direction]) := by
  unfold motorOn
  split <;> exact fixed_constantCall (fixed_pieces _ (by simp)) (List.forall_mem_singleton.mpr hw) (by decide)

theorem fixed_sensorSetup {type mode : String} (hw : Fixed w) (htype : Fixed type)
    (hmode : Fixed mode) (clear : Bool) : Fixed (stmtsText "" (sensorSetup w type mode clear)) := by
  have hclear : Fixed (stmtsText "" (if clear then [constantCall "ClearSensor" [w]] else [])) := by
    cases clear with
    | false =>
      show Fixed (stmtsText "" [])
      decide
    | true =>
      exact fixed_constantCall (fixed_pieces _ (by simp)) (List.forall_mem_singleton.mpr hw) (by decide)
  exact fixed_constantCall (fixed_pieces _ (by simp)) (by simpa using ⟨hw, htype⟩)
    (fixed_constantCall (fixed_pieces _ (by simp)) (by simpa using ⟨hw, hmode⟩) hclear)

theorem fixed_template (hc : n.Conforms spec) (hnumber : n.kind ≠ .number)
    (hpercent : n.kind ≠ .percent) (counter : Bool) : Fixed (n.template counter) := by
  have hknown := hc.known
  have hmotor : Builtin.motor ∈ spec.fields → Fixed (n.text "MOTOR") := fun h =>
    (show ∀ o ∈ Builtin.motorOptions, Fixed o by decide +kernel) _ (hc.text_mem_options h rfl)
  have hsensor : Builtin.sensor ∈ spec.fields → Fixed (n.text "SENSOR") := fun h =>
    (show ∀ o ∈ Builtin.sensorOptions, Fixed o by decide +kernel) _ (hc.text_mem_options h rfl)
  unfold Node.template nodeStmts valueExpr
  cases hk : n.kind <;> rw [hk] at hknown <;> cases hknown <;> dsimp only
  case number => exact absurd hk hnumber
  case percent => exact absurd hk hpercent
  case motorOnWithPower =>
    have hw := hmotor mem_cons_self
    exact fixed_setPower hw (fixed_motorOn hw _)
  case motorOn => exact fixed_motorOn (hmotor mem_cons_self) _
  case motorOff =>
    have hw := hmotor mem_cons_self
    exact fixed_constantCall (by decide +kernel) (List.forall_mem_singleton.mpr hw) (by decide +kernel)
  case setPower => exact fixed_setPower (hmotor mem_cons_self) (by decide +kernel)
  case setDirection =>
    have hw := hmotor mem_cons_self
    have hdirection : Fixed (if n.text "DIRECTION" == "FWD" then "OUT_FWD" else "OUT_REV") := by
      split <;> decide +kernel
    have hboth : ∀ w ∈ [n.text "MOTOR", _], Fixed w :=
      forall_mem_cons.mpr ⟨hw, List.forall_mem_singleton.mpr hdirection⟩
    exact fixed_constantCall (by decide +kernel) hboth (by decide +kernel)
  case playSound =>
    have hsound : Fixed (n.text "SOUND") :=
      (show ∀ o ∈ Builtin.soundOptions, Fixed o by decide +kernel) _ (hc.text_mem_options
        (f := Builtin.dropdown "SOUND" "SOUND_CLICK" Builtin.soundOptions) mem_cons_self rfl)
    exact fixed_constantCall (by decide +kernel) (List.forall_mem_singleton.mpr hsound) (by decide +kernel)
  case touchSensorSetup | lightSensorSetup | rotationSensorSetup | temperatureSensorSetup =>
    exact fixed_sensorSetup (hsensor mem_cons_self) (by decide +kernel) (by decide +kernel) _
  case touchValue | lightValue | rotationValue | temperatureValue =>
    exact fixed_expression (hsensor mem_cons_self)
  case repeatTimes => cases counter <;> decide +kernel
  case conditional => exact fixed_branches _ _
  case boolean => split <;> exact fixed_expression (by decide +kernel)
  case arithmetic | compare | logic =>
    exact fixed_expression (Fixed.binary _ (by decide +kernel) (by decide +kernel))
  all_goals decide +kernel

theorem ownWords_subset (hc : n.Conforms spec) (hnumber : n.kind ≠ .number)
    (hpercent : n.kind ≠ .percent) (counter : Bool) : n.ownWords counter ⊆ fixedWords := by
  refine List.append_subset.mpr ⟨fixed_template hc hnumber hpercent counter, fun w hw => ?_⟩
  obtain ⟨e, he, hw⟩ := mem_flatMap.mp hw
  have hknown := hc.known
  have hspec := hc.slotSpec ((Table.get?_eq_some_iff hc.nodup_valueSlots).mpr he)
  have hdefault : e.2.default ∈ ["50", "1", "true", "10", "false", "0"] := by
    cases hk : n.kind <;> rw [hk] at hknown <;> cases hknown <;>
      simp [Builtin.sensorSetup, Builtin.sensorValue, Builtin.power] at hspec ⊢ <;> grind
  exact fixed_pieces _ (mem_append_left _ hdefault) hw

end Templates

/-! ## Names -/

theorem notMem_reservedWords (h : isReserved w = false) : w ∉ reservedWords := by
  rwa [← contains_iff_mem, Bool.not_eq_true]

theorem notMem_of_not_isReservedTask (h : isReservedTask w = false) : w ∉ entryName :: reservedWords := by
  unfold isReservedTask at h
  rw [Bool.or_eq_false_iff, beq_eq_false_iff_ne] at h
  rw [mem_cons, not_or]
  exact ⟨h.1, notMem_reservedWords h.2⟩

theorem Scope.boundName_notMem_fixedWords (k : Nat) : boundName k ∉ fixedWords := by
  have hreserved := notMem_of_not_isReservedTask (isReservedTask_boundName k)
  have hother : ∀ w ∈ sensorWords ++ Builtin.soundOptions, w.toList.head? = some 'S' := by
    decide
  intro hmem
  unfold fixedWords at hmem
  rw [List.append_assoc, ← cons_append, mem_append] at hmem
  rcases hmem with hmem | hmem
  · exact hreserved hmem
  · have hhead := hother _ hmem
    unfold boundName suffixed at hhead
    rw [toList_append] at hhead
    cases hhead

theorem covers_sectionScope (r : Resolver) (key : ScopeKey) (parts : List BlockTree) :
    ∀ a ∈ (sectionScope r key parts).auxiliary,
      Name.text a.2 ∈ (sectionScope r key parts).names ∧ ∃ k, a.2 = Scope.boundName k := by
  intro a ha
  obtain ⟨numbers, h⟩ := allocated_sectionScope r key parts
  obtain ⟨k, hk, hname⟩ := mem_map.mp (h.given ▸ mem_map_of_mem ha)
  rw [h.names, ← hname]
  exact ⟨mem_append_right _ (mem_map_of_mem hk), k, rfl⟩

namespace Generation

open Graph

variable {g : Graph}

theorem notMem_of_mem_scopeOf {policy : ReservedPolicy} {key : ScopeKey} {heads : List Handle}
    (hallow : ∀ u ∈ namesOf (chainParts (treesOf g heads)), policy.Allows u) {y : Name}
    (hy : y ∈ (scopeOf g (g.resolver policy) key heads).names) : ∃ x, y = .text x ∧ x ∉ reservedWords := by
  rcases mem_sectionScope.mp hy with ⟨v, hv, rfl⟩ | ⟨loop, -, name, hname, rfl⟩
  · obtain ⟨p, hp, hv⟩ := mem_flatMap.mp hv
    obtain ⟨u, hu, rfl⟩ := mem_map.mp hv
    obtain ⟨hu, huse⟩ := mem_filter.mp hu
    have hforbids := forbids_spell (r := g.resolver policy) (hallow u ⟨p, hp, hu⟩)
    rw [beq_iff_eq.mp huse] at hforbids
    exact ⟨_, rfl, notMem_reservedWords hforbids⟩
  · obtain ⟨k, rfl⟩ := boundName_of_sectionScope hname
    exact ⟨_, rfl, fun hmem => Scope.boundName_notMem_fixedWords k
      (mem_cons_of_mem _ (mem_append_left _ (mem_append_left _ hmem)))⟩

theorem isReservedTask_of_commanded (hg : g.Forest) {options : Options}
    (hallow : ∀ u ∈ programNames g options, options.policy.Allows u) {record : SectionRecord}
    (hrecord : record ∈ programRecords g options)
    (hw : .start w ∈ commandsIn record.code ∨ .stop w ∈ commandsIn record.code) : isReservedTask w = false := by
  have hpart := (exists_record_iff hg).mp ⟨record, hrecord, rfl⟩
  -- both commands say which name the block that gives them resolves
  have hname : ∃ n command, g.RenderedIn record.part n ∧ n.kind.command? = some command
      ∧ w = (g.resolver options.policy).spell .task (n.text "NAME") := by
    rcases hw with hw | hw <;>
      obtain ⟨n, hn, command, hcommand, heq⟩ := (mem_commands_record hg hrecord).mp hw <;>
      refine ⟨n, command, hn, hcommand, ?_⟩ <;> cases hk : n.kind <;> rw [hk] at hcommand <;>
      cases hcommand <;> cases heq <;> rfl
  obtain ⟨n, command, hn, hcommand, rfl⟩ := hname
  have hallowed : (g.resolver options.policy).policy.Allows ⟨n.text "NAME", .task⟩ :=
    allows_of_rendered hg hallow ((rendered_iff hg _ options).mpr ⟨_, hpart.1, hn⟩) hcommand
  exact forbids_spell hallowed

/-- **Names keep away from the words of the language.** Whenever a program can be generated, the words
that its blocks write of themselves are fixed words. No variable that a section declares is called by a
reserved word, and no variable for a count by any fixed word. No task that is defined, apart from the main
task, and none that is started or stopped is called by a reserved word or like the main task. -/
theorem names_apart_of_run (hg : g.Reachable) (options : Options) (hrun : (run g options).2 = none) :
    (∀ n ∈ g.nodes, n.kind ≠ .number → n.kind ≠ .percent → ∀ counter,
        n.ownWords counter ⊆ fixedWords)
    ∧ ∃ p records c, Gen.exec (recordProgram g) (.start options) = (.ok (p, records), c)
      ∧ c.reports = (run g options).1
      ∧ records.map (·.part) = (sections options p).filter (!·.isPreamble)
      ∧ ∀ record ∈ records, ∃ s, record.opened = some s
        ∧ (∃ report ∈ (run g options).1, record.part.IsHeader options s report)
        ∧ (∀ y ∈ s.names, ∃ x, y = .text x ∧ x ∉ reservedWords)
        ∧ (∀ a ∈ s.auxiliary, .text a.2 ∈ s.names ∧ a.2 ∉ fixedWords)
        ∧ (∀ w, s.key = .task w → record.Defines options (run g options).1 w
          ∧ w ∉ entryName :: reservedWords)
        ∧ ∀ w, .start w ∈ commandsIn record.code ∨ .stop w ∈ commandsIn record.code →
          w ∉ entryName :: reservedWords := by
  have hforest := hg.forest
  refine ⟨fun n hn hnumber hpercent counter => ?_, ?_⟩
  · obtain ⟨-, spec, hc⟩ := hforest.sound (hforest.mem_nodes_iff_get?.mp hn)
    exact ownWords_subset hc hnumber hpercent counter
  obtain ⟨hallow, hreports, c, hexec, hctx⟩ := exec_of_run hforest hrun
  have hready := ready_sections (r := g.resolver options.policy) hforest options
  rw [hreports]
  refine ⟨_, _, c, hexec, hctx, parts_of_records hforest hready, fun record hrecord => ?_⟩
  obtain ⟨sec, hsec, hmem⟩ := List.mem_flatMap.mp hrecord
  obtain ⟨key, heads, heq, -, -, -, hnames, report, hreport, hheader⟩ :=
    (sectionRecords_of_ready hforest options (hready sec hsec)).2 record hmem
  refine ⟨scopeOf g (g.resolver options.policy) key heads, by rw [heq]; rfl, ⟨report, ?_, ?_⟩,
    fun y hy => notMem_of_mem_scopeOf (fun u hu => hallow u (.inr ⟨sec, hsec, hnames hu⟩)) hy,
    fun a ha => ?_, fun w hw => ?_, fun w hw => ?_⟩
  · exact List.mem_append_left _ (List.mem_append_right _ (sectionReports_subset hsec hreport))
  · rw [heq]
    exact hheader
  · obtain ⟨hdeclared, k, hk⟩ := covers_sectionScope _ _ _ a ha
    exact ⟨hdeclared, hk ▸ Scope.boundName_notMem_fixedWords k⟩
  · obtain ⟨m, hm, hk, rfl, hrec⟩ := exists_planned_of_key hforest hrecord (by rw [heq]; rfl) hw
    have hfree := Resolver.forbids_spell (r := g.resolver options.policy)
      (allows_of_planned hforest hallow hm hk)
    exact ⟨hrec ▸ defines_recordOf hforest options hm hk, notMem_of_not_isReservedTask hfree⟩
  · exact notMem_of_not_isReservedTask (isReservedTask_of_commanded hforest hallow hrecord hw)

def renamedTasks : { g : Graph // g.Reachable ∧ (run g { policy := .rename }).2 = none } :=
  ⟨(Editor.run {} [.create "main_task" {},
      .create "variable_set" { fields := [("VAR", .text "while")] },
      .connectStatement 1 "STATEMENTS" 2, .create "repeat_times" {}, .connectNext 2 3,
      .create "arithmetic" {}, .connectValue 3 "TIMES" 4,
      .create "named_task" { fields := [("NAME", .text "stop")] }]).graph,
    reachable_run .empty _, Option.isNone_iff_eq_none.mp (by decide +kernel)⟩

/-- A main task that sets a variable called `while` and repeats something a computed number of times,
beside a task called `stop`: both names are reserved, and are written as others. -/
theorem names_apart_of_run_renamed :
    let g := (Editor.run {} [.create "main_task" {},
      .create "variable_set" { fields := [("VAR", .text "while")] },
      .connectStatement 1 "STATEMENTS" 2, .create "repeat_times" {}, .connectNext 2 3,
      .create "arithmetic" {}, .connectValue 3 "TIMES" 4,
      .create "named_task" { fields := [("NAME", .text "stop")] }]).graph
    let options : Options := { policy := .rename }
    g.Reachable ∧ (run g options).2 = none
      ∧ ∃ p main task c, Gen.exec (recordProgram g) (.start options) = (.ok (p, [main, task]), c)
        ∧ ∃ s t, main.opened = some s ∧ task.opened = some t
          ∧ s.declarations "" = "int while2;\nint repeat_bound_1;\n\n"
          ∧ s.auxiliary = [(3, "repeat_bound_1")] ∧ t.key = .task "stop2"
          ∧ (∀ y ∈ s.names, ∃ x, y = .text x ∧ x ∉ reservedWords)
          ∧ "repeat_bound_1" ∉ fixedWords ∧ "stop2" ∉ entryName :: reservedWords := by
  intro g options
  obtain ⟨hreach, hrun⟩ : g.Reachable ∧ (run g options).2 = none := renamedTasks.2
  obtain ⟨-, p, records, c, hexec, -, -, h⟩ := names_apart_of_run hreach options hrun
  have hopened : (Gen.exec (recordProgram g) (.start options)).1.toOption.map
      (fun x => x.2.map fun record => record.opened.map fun s => (s.key, s.declarations ""))
        = some [some (.main, "int while2;\nint repeat_bound_1;\n\n"), some (.task "stop2", "")] := by
    decide +kernel
  have hloops : (Gen.exec (recordProgram g) (.start options)).1.toOption.map
      (fun x => x.2.map fun record => record.opened.map (·.auxiliary))
        = some [some [(3, "repeat_bound_1")], some []] := by decide +kernel
  rw [hexec] at hopened hloops
  obtain ⟨main, tasks, rfl, hmain, htasks⟩ := List.map_eq_cons_iff.mp (Option.some.inj hopened)
  obtain ⟨task, rfl, htask⟩ := List.map_eq_singleton_iff.mp htasks
  obtain ⟨s, hs, -, hnames, hauxiliary, -⟩ := h main List.mem_cons_self
  obtain ⟨t, ht, -, -, -, hkey, -⟩ := h task (List.mem_cons_of_mem _ List.mem_cons_self)
  rw [hs] at hmain
  rw [ht] at htask
  have hkey_task := congrArg Prod.fst (Option.some.inj htask)
  have hloop : s.auxiliary = [(3, "repeat_bound_1")] := by
    have hfirst : main.opened.map (·.auxiliary) = some [(3, "repeat_bound_1")] :=
      (List.cons.inj (Option.some.inj hloops)).1
    rw [hs] at hfirst
    exact Option.some.inj hfirst
  exact ⟨hreach, hrun, p, main, task, c, hexec, s, t, hs, ht,
    congrArg Prod.snd (Option.some.inj hmain), hloop, hkey_task, hnames,
    (hauxiliary (3, "repeat_bound_1") (hloop ▸ List.mem_cons_self)).2, (hkey "stop2" hkey_task).2⟩

/-- A main task with a variable that is called like the main task and one that is called like a sound, and
beside it a task that is called like a sound. -/
theorem declares_fixedWords :
    let g := (Editor.run {} [.create "main_task" {},
      .create "variable_set" { fields := [("VAR", .text "main")] }, .connectStatement 1 "STATEMENTS" 2,
      .create "variable_set" { fields := [("VAR", .text "SOUND_UP")] }, .connectNext 2 3,
      .create "named_task" { fields := [("NAME", .text "SOUND_CLICK")] }]).graph
    g.Reachable
      ∧ code g = .ok ("task main()\n\x7b\n  int main;\n  int SOUND_UP;\n\n  main = 0;\n"
        ++ "  SOUND_UP = 0;\n\x7d\n\ntask SOUND_CLICK()\n\x7b\n\x7d\n")
      ∧ ∃ p main task c s t, Gen.exec (recordProgram g) (.start {}) = (.ok (p, [main, task]), c)
        ∧ main.opened = some s ∧ task.opened = some t
        ∧ (∀ name ∈ [entryName, "SOUND_UP"], .text name ∈ s.names ∧ name ∈ fixedWords)
        ∧ t.key = .task "SOUND_CLICK" ∧ "SOUND_CLICK" ∈ fixedWords := by
  intro g
  have hopened : (Gen.exec (recordProgram g) (.start {})).1.toOption.map
      (fun x => x.2.map fun record => record.opened.map fun s =>
        (s.key, [entryName, "SOUND_UP"].all (s.contains ·)))
        = some [some (.main, true), some (.task "SOUND_CLICK", false)] := by decide +kernel
  have hfixed : ∀ name ∈ ["SOUND_CLICK", entryName, "SOUND_UP"], name ∈ fixedWords := by
    decide +kernel
  refine ⟨reachable_run .empty _, eq_ok_of_toOption (by decide +kernel), ?_⟩
  obtain ⟨⟨p, records⟩, hexec, hrecords⟩ := Option.map_eq_some_iff.mp hopened
  obtain ⟨main, tasks, rfl, hmain, htasks⟩ := List.map_eq_cons_iff.mp hrecords
  obtain ⟨task, rfl, htask⟩ := List.map_eq_singleton_iff.mp htasks
  obtain ⟨s, hs, hmain⟩ := Option.map_eq_some_iff.mp hmain
  obtain ⟨t, ht, htask⟩ := Option.map_eq_some_iff.mp htask
  have hnames := List.all_eq_true.mp (congrArg Prod.snd hmain)
  have hrun {α : Type} {x : Except GenError α × Context} {a : α} (h : x.1.toOption = some a) : ∃ c, x = (.ok a, c) :=
    ⟨x.2, Prod.ext (eq_ok_of_toOption h) rfl⟩
  obtain ⟨c, hrun⟩ := hrun hexec
  exact ⟨p, main, task, c, s, t, hrun, hs, ht,
    fun name hname => ⟨Scope.contains_iff.mp (hnames name hname),
      hfixed _ (List.mem_cons_of_mem _ hname)⟩,
    congrArg Prod.fst htask, hfixed _ List.mem_cons_self⟩

end Generation

end NqcBlocks
