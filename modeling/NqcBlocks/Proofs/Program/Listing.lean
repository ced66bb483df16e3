import NqcBlocks.Proofs.Graph.Muting
import NqcBlocks.Proofs.Program.Lines

/-!
# The lines of blocks

What blocks are written as, line by line. `BlockTree.lines` lists the lines of a tree of blocks, and the text of
the tree's statements is written in these lines (`BlockTree.Sound.written`). Without remarks, the lines are the
same apart from what stands above them.
-/

namespace NqcBlocks

open Nqc Text List String Table Number Line

/-! ## Lines of trees -/

def branchLines (otherwise : Option (List Line)) :
    String → String → List (Expr × List Line) → List Line
  | row, _, [] => match otherwise with
    | none => [{ code := row }]
    | some body => loopLines (row ++ " else ") body ""
  | row, word, (condition, body) :: rest =>
    { code := row ++ (word ++ " (" ++ condition.text ++ ") ") ++ "\x7b" }
      :: (body.map Line.inner ++ branchLines otherwise "\x7d" " else if" rest)

def Nqc.Stmt.row (s : Stmt) : String := .ofList (s.text "").toList.dropLast

/-- **The lines of a block**, given what is in its sockets and bodies and whether its count has to be
computed first. -/
def nodeLines (σ : Spelling) (n : Node) (counter : Bool) (value : String → Expr)
    (body : String → List Line) : List Line :=
  match n.kind with
  | .repeatTimes =>
    if counter then
      { code := (Stmt.assign (σ.bound n.handle) (value "TIMES")).row }
        :: loopLines ("repeat(" ++ σ.bound n.handle ++ ") ") (body "DO") ""
    else loopLines ("repeat(" ++ (value "TIMES").text ++ ") ") (body "DO") ""
  | .repeatForever => loopLines "while(true) " (body "DO") ""
  | .repeatUntil => loopLines "do " (body "DO") (" while (!(" ++ (value "CONDITION").text ++ "));")
  | .conditional =>
    branchLines (if n.statementSlots.contains "ELSE" then some (body "ELSE") else none) "" "if"
      ((List.range n.valueSlots.length).map fun i =>
        (value ("IF" ++ Number.natText i), body ("DO" ++ Number.natText i)))
  | _ => (nodeStmts σ n counter value fun _ => []).map fun s => { code := s.row }

mutual
def BlockTree.lines (σ : Spelling) : BlockTree → List Line
  | .mk n attached operands bodies =>
    if n.enabled then
      startLines (.mk n attached operands bodies)
        (nodeLines σ n (BlockTree.mk n attached operands bodies).needsCounter
          (slotExpr n (readings σ operands))
          (fun slot => (Table.get? slot (bodyLines σ bodies)).getD []))
    else []
def bodyLines (σ : Spelling) : Bodies → List (String × List Line)
  | [] => []
  | (slot, chain) :: rest => (slot, chainLines σ chain) :: bodyLines σ rest
def chainLines (σ : Spelling) : List BlockTree → List Line
  | [] => []
  | t :: rest => t.lines σ ++ chainLines σ rest
end

theorem getD_bodyLines (σ : Spelling) (bodies : Bodies) (slot : String) :
    (get? slot (bodyLines σ bodies)).getD [] = chainLines σ (chainAt bodies slot) :=
  getD_bodies rfl rfl (fun _ _ _ => by rw [bodyLines]) bodies slot

/-! ## Statements of one line -/

namespace Nqc.Stmt

def Short : Stmt → Prop
  | .call function arguments => IsToken function ∧ ∀ e ∈ arguments, Inline e.text
  | .assign name value => IsToken name ∧ Inline value.text
  | .expression value => value.Worded
  | .start task | .stop task => Inline task
  | _ => False

theorem row_eq {s : Stmt} {line : String} (h : s.text "" = line ++ ";\n") : s.row = line ++ ";" := by
  have hend : (line ++ ";\n").toList = (line ++ ";").toList ++ ['\n'] := by
    rw [toList_append, toList_append, List.append_assoc]
    rfl
  rw [row, h, hend, dropLast_concat, ofList_toList]

theorem Short.written {s : Stmt} (h : s.Short) (margin : String) :
    Written IsCode margin (s.text margin) [{ code := s.row }] := by
  have htoken : ∀ {w rest : String}, IsToken w → Starts (w ++ rest) := fun hw => (starts_of_isToken hw).append _
  have hslash : ∀ {w : String}, IsToken w → '/' ∉ w.toList := notMem_of_isToken (by decide)
  have hchars : ∀ {w : String}, IsToken w → Inline w := fun hw _ hc => isInline_of_isToken hw hc
  -- what is written is one piece of text, which ends with a semicolon
  obtain ⟨line, htext, hinline, hstarts, hcomment⟩ : ∃ line, (∀ margin, s.text margin = line ++ ";\n")
      ∧ Inline line ∧ Starts line ∧ isComment (line ++ ";") = false := by
    cases s with
    | comment | repeatTimes | forever | doUntil | branches => exact h.elim
    | call function arguments =>
      have hlist : Inline (", ".intercalate (arguments.map Expr.text)) := by
        refine Inline.intercalate (by decide) fun w hw => ?_
        obtain ⟨e, he, rfl⟩ := mem_map.mp hw
        exact h.2 e he
      refine ⟨function ++ ("(" ++ (", ".intercalate (arguments.map Expr.text) ++ ")")), fun margin => ?_,
        (hchars h.1).append (Inline.append (by decide) (hlist.append (by decide))), htoken h.1, ?_⟩
      · have hend : (");\n" : String) = ")" ++ ";\n" := rfl
        rw [text, hend]
        simp only [String.append_assoc]
      · rw [String.append_assoc, String.append_assoc]
        exact isComment_append (hslash h.1) (isComment_of_head (by decide) _)
    | assign name value =>
      refine ⟨name ++ (" = " ++ value.text), fun margin => ?_,
        (hchars h.1).append (Inline.append (by decide) h.2), htoken h.1, ?_⟩
      · rw [text]
        simp only [String.append_assoc]
      · rw [String.append_assoc, String.append_assoc]
        exact isComment_append (hslash h.1) (isComment_of_head (by decide) _)
    | expression value =>
      have hvalue : value.Worded := h
      refine ⟨value.text, fun margin => by rw [text], hvalue.inline, hvalue.starts, isComment_of_sober ?_⟩
      exact hvalue.sober.append (by decide)
    | start task | stop task =>
      refine ⟨_, fun margin => by rw [text], Inline.append (by decide) h, Starts.append (by decide) _, ?_⟩
      rw [String.append_assoc]
      exact isComment_of_head (by decide) _
  have hend : (";\n" : String) = ";" ++ "\n" := rfl
  have hplain : IsPlain (line ++ ";") :=
    ⟨Unbroken.append hinline.plain (by decide), hcomment, fun _ => hstarts.append _⟩
  rw [htext, row_eq (htext ""), hend, ← String.append_assoc]
  exact .flat (hplain.isCode (by decide)) (hinline.append (by decide))

end Nqc.Stmt

theorem written_short {margin : String} : ∀ {ss : List Stmt}, (∀ s ∈ ss, s.Short) →
    Written IsCode margin (stmtsText margin ss) (ss.map fun s => { code := s.row })
  | [], _ => .nil
  | s :: ss, h => by
    rw [stmtsText, map_cons]
    exact ((h s mem_cons_self).written margin).append (written_short fun s hs => h s (mem_cons_of_mem _ hs))

section Blocks

variable {n : Node} {spec : BlockSpec} {σ : Spelling} {expr : String → Expr}

def BlockKind.hasBody : BlockKind → Bool
  | .repeatTimes | .repeatForever | .repeatUntil | .conditional => true
  | _ => false

theorem short_constantCall {function : String} {constants : List String} (hf : IsToken function)
    (h : ∀ w ∈ constants, Inline w) : (constantCall function constants).Short := by
  refine ⟨hf, fun e he => ?_⟩
  obtain ⟨w, hw, rfl⟩ := mem_map.mp he
  exact h w hw

theorem short_setPower {motor : String} {percent : Expr} (hmotor : Inline motor) (h : Inline percent.text) :
    (setPower motor percent).Short := by
  have hmost : Inline (Expr.atom maxPower).text := by decide
  have hwhole : Inline (Expr.atom "100").text := by decide
  have hscaled := ((Inline.binary .multiply h hmost).binary .divide hwhole).group
  exact ⟨by decide, forall_mem_cons.mpr ⟨hmotor, List.forall_mem_singleton.mpr hscaled⟩⟩

theorem short_motorOn {motor : String} (hmotor : Inline motor) (direction : String) :
    (motorOn motor direction).Short := by
  unfold motorOn
  split <;> exact short_constantCall (by decide) (List.forall_mem_singleton.mpr hmotor)

theorem short_sensorSetup {sensor type mode : String} (hsensor : Inline sensor) (htype : Inline type)
    (hmode : Inline mode) (clear : Bool) : ∀ s ∈ sensorSetup sensor type mode clear, s.Short := by
  have hcall : ∀ {f w}, IsToken f → Inline w → (constantCall f [sensor, w]).Short := fun hf hw =>
    short_constantCall hf (forall_mem_cons.mpr ⟨hsensor, List.forall_mem_singleton.mpr hw⟩)
  refine forall_mem_append.mpr ⟨forall_mem_cons.mpr
    ⟨hcall (by decide) htype, List.forall_mem_singleton.mpr (hcall (by decide) hmode)⟩, ?_⟩
  cases clear with
  | false => simp
  | true =>
    exact List.forall_mem_singleton.mpr (short_constantCall (by decide) (List.forall_mem_singleton.mpr hsensor))

theorem short_nodeStmts (hc : n.Conforms spec) (hren : n.kind.isRenderable = true) (hσ : σ.Named)
    (hslots : ∀ slot ∈ n.valueSlots.names, (expr slot).Worded) (hbody : n.kind.hasBody = false) (counter : Bool)
    (body : String → List Stmt) : ∀ s ∈ nodeStmts σ n counter expr body, s.Short := by
  have hknown := hc.known
  have hone : ∀ {s : Stmt}, s.Short → ∀ s' ∈ [s], s'.Short := fun h => List.forall_mem_singleton.mpr h
  have hvalue : n.isValue = true → ∀ s ∈ [Stmt.expression (valueExpr σ n expr)], s.Short := fun hval =>
    hone (worded_valueExpr hc hval hσ hslots)
  have hmotor : Builtin.motor ∈ spec.fields → Inline (n.text "MOTOR") := fun h =>
    hc.inline_choice (f := Builtin.motor) h rfl (by decide)
  have hsensor : Builtin.sensor ∈ spec.fields → Inline (n.text "SENSOR") := fun h =>
    hc.inline_choice (f := Builtin.sensor) h rfl (by decide)
  unfold Node.isValue at hvalue
  unfold nodeStmts
  cases hk : n.kind <;> rw [hk] at hknown hren hbody hvalue <;> cases hknown <;> cases hbody <;> cases hren
  case touchValue | lightValue | rotationValue | temperatureValue | variableGet | number | percent
      | arithmetic | group | compare | logic | negate | boolean => exact hvalue rfl
  case motorOnWithPower =>
    have hw := hmotor mem_cons_self
    have hpower := (hslots "POWER" ((hc.slotNames rfl).1 ▸ by decide)).inline
    exact forall_mem_cons.mpr ⟨short_setPower hw hpower, hone (short_motorOn hw _)⟩
  case motorOn => exact hone (short_motorOn (hmotor mem_cons_self) _)
  case motorOff =>
    exact hone (short_constantCall (by decide) (List.forall_mem_singleton.mpr (hmotor mem_cons_self)))
  case setPower =>
    exact hone (short_setPower (hmotor mem_cons_self) (hslots "POWER" ((hc.slotNames rfl).1 ▸ by decide)).inline)
  case setDirection =>
    have hdirection : Inline (if n.text "DIRECTION" == "FWD" then "OUT_FWD" else "OUT_REV") := by
      split <;> decide
    exact hone (short_constantCall (by decide) (forall_mem_cons.mpr
      ⟨hmotor mem_cons_self, List.forall_mem_singleton.mpr hdirection⟩))
  case playSound =>
    have hsound : Inline (n.text "SOUND") :=
      hc.inline_choice (f := Builtin.dropdown "SOUND" "SOUND_CLICK" Builtin.soundOptions)
        mem_cons_self rfl (by decide)
    exact hone (short_constantCall (by decide) (List.forall_mem_singleton.mpr hsound))
  case touchSensorSetup | lightSensorSetup | rotationSensorSetup | temperatureSensorSetup =>
    exact short_sensorSetup (hsensor mem_cons_self) (by decide) (by decide) _
  case waitSeconds =>
    have hseconds := (hslots "SECONDS" ((hc.slotNames rfl).1 ▸ by decide)).inline
    exact hone ⟨by decide, List.forall_mem_singleton.mpr (.binary .multiply hseconds (by decide))⟩
  case waitUntil =>
    have hcondition := (hslots "CONDITION" ((hc.slotNames rfl).1 ▸ by decide)).inline
    exact hone ⟨by decide, List.forall_mem_singleton.mpr hcondition⟩
  case variableSet =>
    have hname := (hc.identifier mem_cons_self rfl).2.resolve_left fun h => by cases h.2
    exact hone ⟨isToken_of_isName (hσ .variable hname), (hslots "VALUE" ((hc.slotNames rfl).1 ▸ by decide)).inline⟩
  case startTask | stopTask =>
    have hname := (hc.identifier mem_cons_self rfl).2.resolve_left fun h => by cases h.2
    exact hone (inline_of_isName (hσ .task hname))

theorem nodeStmts_of_hasBody (h : n.kind.hasBody = false) (σ : Spelling) (counter : Bool)
    (expr : String → Expr) (body body' : String → List Stmt) :
    nodeStmts σ n counter expr body = nodeStmts σ n counter expr body' := by
  unfold nodeStmts
  cases hk : n.kind <;> rw [hk] at h <;> cases h

theorem nodeLines_of_hasBody (h : n.kind.hasBody = false) (σ : Spelling) (counter : Bool)
    (expr : String → Expr) (body : String → List Line) : nodeLines σ n counter expr body
      = (nodeStmts σ n counter expr fun _ => []).map fun s => { code := s.row } := by
  unfold nodeLines
  cases hk : n.kind <;> rw [hk] at h <;> cases h

theorem exists_branchLines (otherwise : Option (List Line)) (row word : String) (arms : List (Expr × List Line)) :
    ∃ code rest, branchLines otherwise row word arms = { code := code } :: rest := by
  rcases arms with _ | ⟨⟨condition, body⟩, arms⟩
  · cases otherwise with
    | none => exact ⟨_, _, rfl⟩
    | some body => exact ⟨_, _, rfl⟩
  · exact ⟨_, _, rfl⟩

theorem exists_nodeLines (hren : n.kind.isRenderable = true) (σ : Spelling) (counter : Bool)
    (expr : String → Expr) (body : String → List Line) :
    ∃ code rest, nodeLines σ n counter expr body = { code := code } :: rest := by
  unfold nodeLines nodeStmts
  cases hk : n.kind <;> rw [hk] at hren <;> cases hren
  case conditional => exact exists_branchLines _ _ _ _
  case repeatTimes =>
    cases counter with
    | false => exact ⟨_, _, rfl⟩
    | true => exact ⟨_, _, rfl⟩
  all_goals exact ⟨_, _, rfl⟩

end Blocks

section Layout

variable {margin : String}

theorem stmtsText_singleton (s : Stmt) : stmtsText margin [s] = s.text margin := by
  rw [stmtsText, stmtsText, append_empty]

variable {rest : String} {condition : Expr} {lines : List Line} {body : List Stmt} {stmts : String → List Stmt}

theorem written_arm (hm : ∀ c ∈ margin.toList, IsMargin c) (row word : String)
    {stmts : List Stmt} {arms : List (Expr × List Stmt)}
    {branches : List Line} {d : Nat}
    (hhead : Written IsCode margin (row ++ (word ++ " (" ++ condition.text ++ ") ") ++ "\x7b" ++ "\n")
      [{ code := row ++ (word ++ " (" ++ condition.text ++ ") ") ++ "\x7b" }] d 1)
    (hbody : Written IsCode margin (stmtsText margin stmts) lines)
    (hnext : Written IsCode margin ("\x7d" ++ (armsText margin " else if" arms ++ rest)) branches 1) :
    Written IsCode margin (row ++ (armsText margin word ((condition, stmts) :: arms) ++ rest))
      ({ code := row ++ (word ++ " (" ++ condition.text ++ ") ") ++ "\x7b" } :: (lines.map inner ++ branches)) d := by
  have hall := Written.braced hm hhead hbody hnext
  rw [armsText]
  simp only [String.append_assoc] at hall ⊢
  exact hall

theorem written_branches (hm : ∀ c ∈ margin.toList, IsMargin c) {ι : Type} {condition : ι → Expr}
    {stmts : ι → List Stmt} {lines : ι → List Line} {otherwise : Option (List Line)}
    (hbody : ∀ i, Written IsCode margin (stmtsText margin (stmts i)) (lines i))
    (hrest : Written IsCode margin ("\x7d" ++ rest) (branchLines otherwise "\x7d" " else if" []) 1) :
    ∀ is : List ι, (∀ i ∈ is, Inline (condition i).text) → Written IsCode margin
        ("\x7d" ++ (armsText margin " else if" (is.map fun i => (condition i, stmts i)) ++ rest))
        (branchLines otherwise "\x7d" " else if" (is.map fun i => (condition i, lines i))) 1
  | [], _ => by
    rw [map_nil, map_nil, armsText, empty_append]
    exact hrest
  | i :: is, hcondition => by
    obtain ⟨hfirst, hothers⟩ := forall_mem_cons.mp hcondition
    have hinner : Inline (" else if" ++ " (" ++ (condition i).text ++ ") ") :=
      (Inline.append (by decide) hfirst).append (by decide)
    have hplain : IsPlain ("\x7d" ++ (" else if" ++ " (" ++ (condition i).text ++ ") ") ++ "\x7b") := by
      rw [String.append_assoc]
      exact isPlain_append (by decide) (by decide) (Unbroken.append hinner.plain (by decide))
    rw [map_cons, map_cons, branchLines]
    exact written_arm hm _ _ (.reopening (hplain.isCode (by decide)) hinner) (hbody i)
      (written_branches hm hbody hrest is hothers)

variable {n : Node} {spec : BlockSpec} {σ : Spelling} {expr : String → Expr}

theorem Written.opening_append (margin : String) {s t : String}
    (hs : s.toList.head?.any (fun c => !isBlank c && c != '/') = true) (hinline : Inline s) (ht : Inline t) :
    Written IsCode margin (s ++ t ++ "\x7b" ++ "\n") [{ code := s ++ t ++ "\x7b" }] 0 1 := by
  have hplain : IsPlain (s ++ t ++ "\x7b") := by
    rw [String.append_assoc]
    exact isPlain_append hinline.plain hs (Unbroken.append ht.plain (by decide))
  refine .opening (hplain.isCode (by decide)) (hinline.append ht) fun hnil => ?_
  rw [toList_append, append_eq_nil_iff] at hnil
  rw [hnil.1] at hs
  cases hs

theorem written_repeat (hm : ∀ c ∈ margin.toList, IsMargin c) (count : Expr) (hcount : Inline count.text)
    (hbody : Written IsCode margin (stmtsText margin body) lines) :
    Written IsCode margin ((Stmt.repeatTimes count body).text margin)
      (loopLines ("repeat(" ++ count.text ++ ") ") lines "") := by
  have hhead := Written.opening_append margin (s := "repeat(") (by decide) (by decide)
    (hcount.append (by decide : Inline ") "))
  rw [← String.append_assoc] at hhead
  rw [Stmt.text]
  exact Written.loop hm hhead hbody (by decide) isCode_close

theorem written_until (hm : ∀ c ∈ margin.toList, IsMargin c)
    (hcondition : Inline condition.text)
    (hbody : Written IsCode margin (stmtsText margin body) lines) :
    Written IsCode margin ((Stmt.doUntil body condition).text margin)
      (loopLines "do " lines (" while (!(" ++ condition.text ++ "));")) := by
  have hhead := Written.opening_append margin (s := "do ") (t := "") (by decide) (by decide) (by decide)
  have htail : Inline (" while (!(" ++ condition.text ++ "));") :=
    (Inline.append (by decide) hcondition).append (by decide)
  have hplain : IsPlain ("\x7d" ++ (" while (!(" ++ condition.text) ++ "));") := by
    rw [String.append_assoc]
    exact isPlain_append (by decide) (by decide) htail.plain
  have hend : ("));\n" : String) = "));" ++ "\n" := rfl
  have hlast := hplain.isCode (by decide)
  rw [String.append_assoc] at hlast
  rw [Stmt.text, hend]
  have hall := Written.loop hm hhead hbody htail hlast
  simp only [String.append_assoc] at hall ⊢
  exact hall

theorem written_conditional (hm : ∀ c ∈ margin.toList, IsMargin c)
    {lines : String → List Line} {count : Nat}
    (hinline : ∀ i ∈ List.range (count + 1), Inline (expr ("IF" ++ natText i)).text)
    (hbody : ∀ slot, Written IsCode margin (stmtsText margin (stmts slot)) (lines slot)) (hasElse : Bool) :
    Written IsCode margin ((Stmt.branches (arms expr stmts (count + 1))
        (if hasElse then some (stmts "ELSE") else none)).text margin)
      (branchLines (if hasElse then some (lines "ELSE") else none) "" "if" ((List.range (count + 1)).map fun i =>
          (expr ("IF" ++ natText i), lines ("DO" ++ natText i)))) := by
  have harms : ∀ {rest : String} {otherwise : Option (List Line)},
      Written IsCode margin ("\x7d" ++ rest) (branchLines otherwise "\x7d" " else if" []) 1 →
      Written IsCode margin (armsText margin "if" (arms expr stmts (count + 1)) ++ rest)
        (branchLines otherwise "" "if" ((List.range (count + 1)).map fun i =>
          (expr ("IF" ++ natText i), lines ("DO" ++ natText i)))) := by
    intro rest otherwise hrest
    unfold arms
    rw [range_succ_eq_map] at hinline ⊢
    obtain ⟨hfirst, hothers⟩ := forall_mem_cons.mp hinline
    have hhead := Written.opening_append margin (s := "if") (by decide) (by decide)
      ((Inline.append (by decide : Inline " (") hfirst).append (by decide : Inline ") "))
    rw [← String.append_assoc, ← String.append_assoc] at hhead
    have hall := written_arm hm "" "if" (by rw [empty_append]; exact hhead) (hbody ("DO" ++ natText 0))
      (written_branches hm (fun i => hbody ("DO" ++ natText i)) hrest _ hothers)
    rw [empty_append] at hall
    exact hall
  cases hasElse with
  | false =>
    rw [if_neg (by decide), if_neg (by decide), Stmt.text]
    exact harms (.closing isCode_close (by decide))
  | true =>
    rw [if_pos rfl, if_pos rfl, Stmt.text, String.append_assoc, String.append_assoc]
    have hplain : IsPlain ("\x7d" ++ " else " ++ "\x7b") := ⟨by decide, by decide, fun _ => by decide⟩
    have hall := Written.loop hm (.reopening (hplain.isCode (by decide)) (by decide)) (hbody "ELSE")
      (by decide) isCode_close
    rw [String.append_assoc, String.append_assoc] at hall
    exact harms hall

theorem written_nodeLines (hm : ∀ c ∈ margin.toList, IsMargin c) (hc : n.Conforms spec)
    (hren : n.kind.isRenderable = true) (hσ : σ.Named)
    (hslots : ∀ slot ∈ n.valueSlots.names, (expr slot).Worded) {counter : Bool}
    (hcount : counter = true → isName (σ.bound n.handle) = true)
    {lines : String → List Line}
    (hbody : ∀ slot, Written IsCode margin (stmtsText margin (stmts slot)) (lines slot)) :
    Written IsCode margin (stmtsText margin (nodeStmts σ n counter expr stmts))
      (nodeLines σ n counter expr lines) := by
  cases hkind : n.kind.hasBody with
  | false =>
    rw [nodeLines_of_hasBody hkind, nodeStmts_of_hasBody hkind σ counter expr stmts fun _ => []]
    exact written_short (short_nodeStmts hc hren hσ hslots hkind counter _)
  | true =>
    have hknown := hc.known
    unfold nodeStmts nodeLines
    cases hk : n.kind <;> rw [hk] at hkind hknown <;>
      simp only [BlockKind.hasBody, reduceCtorEq] at hkind <;> cases hknown
    case true.repeatTimes =>
      have htimes := (hslots "TIMES" ((hc.slotNames rfl).1 ▸ by decide)).inline
      dsimp only
      cases counter with
      | false =>
        rw [if_neg (by decide), if_neg (by decide), stmtsText_singleton]
        exact written_repeat hm _ htimes (hbody "DO")
      | true =>
        have hbound := hcount rfl
        have hassign : (Stmt.assign (σ.bound n.handle) (expr "TIMES")).Short := ⟨isToken_of_isName hbound, htimes⟩
        rw [if_pos rfl, if_pos rfl, stmtsText, stmtsText_singleton]
        exact (hassign.written margin).append
          (written_repeat hm (.variable (σ.bound n.handle)) (inline_of_isName hbound) (hbody "DO"))
    case true.repeatForever =>
      have hhead := Written.opening_append margin (s := "while(true) ") (t := "") (by decide) (by decide) (by decide)
      rw [String.append_empty] at hhead
      have hall := Written.loop hm hhead (hbody "DO") (by decide) isCode_close
      rw [String.empty_append] at hall
      dsimp only
      rw [stmtsText_singleton, Stmt.text]
      exact hall
    case true.repeatUntil =>
      dsimp only
      rw [stmtsText_singleton]
      exact written_until hm (hslots "CONDITION" ((hc.slotNames rfl).1 ▸ by decide)).inline (hbody "DO")
    case true.conditional =>
      obtain ⟨count, hasElse, hvalues, -, hlength, helse⟩ := hc.branchSlots rfl
      dsimp only
      rw [stmtsText_singleton, hlength, helse]
      refine written_conditional hm (fun i hi => (hslots _ ?_).inline) hbody hasElse
      rw [hvalues]
      exact mem_map_of_mem (f := fun i => "IF" ++ natText i) hi

end Layout

section Trees

variable {g : Graph} {margin : String} {σ : Spelling}

theorem written_chainLines : ∀ {chain : List BlockTree},
    (∀ t ∈ chain, Written IsCode margin (stmtsText margin (t.stmts σ)) (t.lines σ)) →
      Written IsCode margin (stmtsText margin (chainStmts σ chain)) (chainLines σ chain)
  | [], _ => .nil
  | t :: rest, h => by
    rw [chainStmts, chainLines, stmtsText_append]
    exact (h t mem_cons_self).append (written_chainLines fun t ht => h t (mem_cons_of_mem _ ht))

theorem BlockTree.Sound.written (hm : ∀ c ∈ margin.toList, IsMargin c) (hσ : σ.Named) {t : BlockTree}
    (ht : t.Sound g) (hren : t.node.kind.isRenderable = true) :
    (∀ p ∈ t.parts, p.needsCounter = true → isName (σ.bound p.node.handle) = true) →
      Written IsCode margin (stmtsText margin (t.stmts σ)) (t.lines σ) := by
  induction ht, hren using BlockTree.Sound.induct_code with
  | @code n spec operands bodies hn hren ih =>
    intro hcount
    rw [BlockTree.stmts, BlockTree.lines]
    by_cases hen : n.enabled = true
    · have hbodies : ∀ slot, Written IsCode margin (stmtsText margin ((get? slot (bodyStmts σ bodies)).getD []))
          ((get? slot (bodyLines σ bodies)).getD []) := by
        intro slot
        rw [getD_bodyStmts, getD_bodyLines]
        exact written_chainLines fun t ht => ih (mem_of_mem_chainAt ht) t ht fun p hp =>
          hcount p (mem_parts_of_body hen (mem_of_mem_chainAt ht) ht hp)
      have hnode := written_nodeLines hm hn.conforms hren hσ
        (hn.worded_slot fun hmem => (hn.operand hmem).worded_reading hσ (hn.isValue hmem))
        (hcount _ (mem_parts_iff.mpr ⟨hen, .inl rfl⟩)) hbodies
      obtain ⟨code, rest, hlines⟩ := exists_nodeLines hren σ
        (BlockTree.mk n true operands bodies).needsCounter (slotExpr n (readings σ operands))
        fun slot => (get? slot (bodyLines σ bodies)).getD []
      rw [hlines] at hnode
      rw [if_pos hen, if_pos hen, hlines, stmtsText_withComments]
      exact hnode.start _
    · rw [if_neg hen, if_neg hen]
      exact .nil

theorem BlockTree.Sound.lines_ne_nil {t : BlockTree} (ht : t.Sound g)
    (hren : t.node.kind.isRenderable = true) (hen : t.node.enabled = true) : t.lines σ ≠ [] := by
  cases ht with
  | @mk n spec operands bodies =>
    have hen : n.enabled = true := hen
    have hren : n.kind.isRenderable = true := hren
    obtain ⟨code, rest, hlines⟩ := exists_nodeLines hren σ
      (BlockTree.mk n true operands bodies).needsCounter (slotExpr n (readings σ operands))
      fun slot => (get? slot (bodyLines σ bodies)).getD []
    rw [BlockTree.lines, if_pos hen, hlines]
    exact cons_ne_nil _ _

end Trees

/-! ## Lines without remarks -/

def Line.mute (l : Line) : Line := { l with owner := l.owner.map (·.revise muting) }

theorem map_mute_inner (ls : List Line) : (ls.map inner).map mute = (ls.map mute).map inner := by
  rw [List.map_map, List.map_map]
  rfl

theorem map_mute_loopLines (head : String) (body : List Line) (tail : String) :
    (loopLines head body tail).map mute = loopLines head (body.map mute) tail := by
  rw [loopLines, loopLines, map_cons, map_append, map_mute_inner]
  rfl

theorem map_mute_branchLines (otherwise : Option (List Line)) :
    ∀ (arms : List (Expr × List Line)) (row word : String), (branchLines otherwise row word arms).map mute
        = branchLines (otherwise.map (List.map mute)) row word (arms.map fun arm => (arm.1, arm.2.map mute))
  | [], row, word => by
    cases otherwise with
    | none => rfl
    | some body => exact map_mute_loopLines _ body _
  | (condition, body) :: rest, row, word => by
    rw [branchLines, map_cons, map_append, map_mute_inner, map_mute_branchLines otherwise rest]
    rfl

theorem nodeLines_mute (σ : Spelling) (n : Node) (counter : Bool) (expr : String → Expr)
    (body : String → List Line) : nodeLines σ n.mute counter expr (fun slot => (body slot).map mute)
      = (nodeLines σ n counter expr body).map mute := by
  have hkind : n.mute.kind = n.kind := rfl
  cases hbody : n.kind.hasBody with
  | false =>
    rw [nodeLines_of_hasBody (n := n) hbody, nodeLines_of_hasBody (n := n.mute) hbody, List.map_map]
    rfl
  | true =>
    unfold nodeLines
    rw [hkind]
    cases hk : n.kind <;> rw [hk] at hbody <;> simp only [BlockKind.hasBody, reduceCtorEq] at hbody
    case repeatTimes =>
      cases counter with
      | false => exact (map_mute_loopLines _ _ _).symm
      | true => exact congrArg (List.cons _) (map_mute_loopLines _ _ _).symm
    case repeatForever | repeatUntil => exact (map_mute_loopLines _ _ _).symm
    case conditional =>
      dsimp only
      rw [map_mute_branchLines, List.map_map]
      show branchLines (if n.statementSlots.contains "ELSE" then _ else _) _ _ _ = _
      cases n.statementSlots.contains "ELSE" <;> rfl

theorem startLines_mute (t : BlockTree) (ls : List Line) :
    startLines (t.revise muting) (ls.map mute) = (startLines t ls).map mute := by
  cases ls <;> rfl

mutual
theorem BlockTree.lines_mute (σ : Spelling) : ∀ t : BlockTree, (t.revise muting).lines σ = (t.lines σ).map mute
  | .mk n attached operands bodies => by
    have hcounter := (BlockTree.mk n attached operands bodies).needsCounter_mute
    have hstart := startLines_mute (.mk n attached operands bodies)
    have hbodies : ∀ slot, (get? slot (bodyLines σ (reviseBodies muting bodies))).getD []
        = ((get? slot (bodyLines σ bodies)).getD []).map mute := by
      intro slot
      rw [bodyLines_mute σ bodies, get?_mapValues (fun _ => List.map mute)]
      cases get? slot (bodyLines σ bodies) <;> rfl
    rw [BlockTree.revise] at hcounter hstart ⊢
    rw [BlockTree.lines, BlockTree.lines, hcounter, readings_mute]
    simp only [hbodies]
    show (if n.enabled then _ else []) = List.map _ (if n.enabled then _ else [])
    split
    · rw [← hstart, ← nodeLines_mute]
      rfl
    · rfl
theorem bodyLines_mute (σ : Spelling) : ∀ bodies : Bodies,
    bodyLines σ (reviseBodies muting bodies) = (bodyLines σ bodies).map fun e => (e.1, e.2.map mute)
  | [] => rfl
  | (slot, chain) :: rest => by
    rw [reviseBodies, bodyLines, bodyLines, chainLines_mute σ chain, bodyLines_mute σ rest]
    rfl
theorem chainLines_mute (σ : Spelling) : ∀ chain : List BlockTree,
    chainLines σ (reviseChain muting chain) = (chainLines σ chain).map mute
  | [] => rfl
  | t :: rest => by
    rw [reviseChain_cons, chainLines, chainLines, t.lines_mute σ, chainLines_mute σ rest, map_append]
end

end NqcBlocks
