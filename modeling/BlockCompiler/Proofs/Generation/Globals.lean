import BlockCompiler.Proofs.Generation.Alignment
import BlockCompiler.Proofs.Generation.Replay
import BlockCompiler.Proofs.Generation.Statements
import BlockCompiler.Proofs.Generation.Timers
import BlockCompiler.Proofs.Graph.Surroundings

/-!
# Variables that a procedure assigns

In MicroPython an assignment inside of a function makes a new variable of that function,
unless a `global` line at its beginning names the variable.  The names on that line come
from a list of all blocks inside of the procedure (`assignedGlobals`), made before any
of them is generated.

What generating the procedure comes to ask for are blocks inside of it, or blocks of the
pass, which assign nothing (`Course.within`).  So every assignment that is emitted, at any depth,
is to a parameter or to a name on the line.
-/

namespace BlockCompiler

open Relation

/-! ## Texts -/

theorem Text.indent_line {unit line : String} (h : Closing line) :
    indent unit (line ++ "\n") = unit ++ line ++ "\n" := by
  obtain ⟨hfeed, hlast⟩ := h
  have hreturn : line.toList.getLast? ≠ some '\r' := by
    intro hcr
    rw [hcr] at hlast
    exact absurd hlast (by decide)
  have hne : line ≠ "" := by
    rintro rfl
    exact absurd hlast (by decide)
  have hlines : splitLines (line.toList ++ ['\n']) = [line.toList] :=
    splitLines_cons hfeed hreturn []
  rw [indent, mapLines, lines, String.toList_append]
  show String.join (((splitLines (line.toList ++ ['\n'])).map String.ofList).map _) = _
  simp [hlines, hne]

namespace Lexicon

/-- A word ends where a character stands that may not be in it. -/
theorem eq_of_append_eq {a b : List Char} (ha : ∀ c ∈ a, isWordChar c = true)
    (hb : ∀ c ∈ b, isWordChar c = true) {c d : Char} (hc : isWordChar c = false)
    (hd : isWordChar d = false) {u v : List Char} (h : a ++ c :: u = b ++ d :: v) :
    a = b ∧ c :: u = d :: v := by
  have hfront := congrArg (List.takeWhile isWordChar) h
  rw [List.takeWhile_append_of_pos ha, List.takeWhile_append_of_pos hb,
    List.takeWhile_cons_of_neg (by simp [hc]), List.takeWhile_cons_of_neg (by simp [hd]),
    List.append_nil, List.append_nil] at hfront
  subst hfront
  exact ⟨rfl, List.append_cancel_left h⟩

end Lexicon

namespace Blocks

open Lexicon Text

/-! ## Statements that assign a variable -/

/-- The MicroPython statement assigns the variable: it sets it, counts with it, or keeps the time of
a timed repeat in it. -/
inductive Assigns : String → String → Prop
  | assignment {name : String} (hname : isWord name.toList = true) (value : String) :
    Assigns (name ++ " = " ++ value ++ "\n") name
  | loop {name : String} (hname : isWord name.toList = true) (range body : String) :
    Assigns ("for " ++ name ++ " in " ++ range ++ ":\n" ++ body) name
  | timer {name : String} (hname : isWord name.toList = true) (interval body : String) :
    Assigns ("if time.ticks_diff(time.ticks_ms(), " ++ name ++ ") >= " ++ interval ++ ":\n    " ++
      name ++ " = time.ticks_ms()\n" ++ body) name

/-- The first word of a statement that assigns a variable, and what comes after it. -/
theorem Assigns.opening {text name : String} (h : Assigns text name) :
    (∃ rest, text.toList = name.toList ++ ' ' :: '=' :: rest) ∨
      (∃ rest, text.toList = "for".toList ++ ' ' :: (name.toList ++ ' ' :: rest)) ∨
        ∃ rest, text.toList = "if".toList ++ ' ' ::
          ("time.ticks_diff(time.ticks_ms(), ".toList ++ (name.toList ++ ')' :: rest)) := by
  cases h with
  | assignment _ value => exact Or.inl ⟨(" " ++ value ++ "\n").toList, by simp⟩
  | loop _ range body => exact Or.inr (Or.inl ⟨("in " ++ range ++ ":\n" ++ body).toList, by simp⟩)
  | timer _ interval body =>
    refine Or.inr (Or.inr ⟨(" >= " ++ interval ++ ":\n    " ++ name ++ " = time.ticks_ms()\n" ++
      body).toList, ?_⟩)
    simp

theorem Assigns.isWord_name {text name : String} (h : Assigns text name) :
    isWord name.toList = true := by
  cases h <;> assumption

/-- After a keyword stands no sign for an assignment. -/
theorem keyword_ne {name keyword : List Char} (hname : isWord name = true)
    (hkeyword : isWord keyword = true) {rest after : List Char}
    (hafter : after.head? ≠ some '=') :
    name ++ ' ' :: '=' :: rest ≠ keyword ++ ' ' :: after := by
  intro heq
  obtain ⟨-, htail⟩ := eq_of_append_eq (isWordChar_of_isWord hname) (isWordChar_of_isWord hkeyword)
    (by decide) (by decide) heq
  obtain rfl := (List.cons.inj htail).2
  exact hafter rfl

/-- What a statement assigns can be read off its text. -/
theorem Assigns.unique {text a b : String} (ha : Assigns text a) (hb : Assigns text b) : a = b := by
  have hwa := isWordChar_of_isWord ha.isWord_name
  have hwb := isWordChar_of_isWord hb.isWord_name
  have hloop : ∀ {name : String} {rest : List Char}, isWord name.toList = true →
      (name.toList ++ ' ' :: rest).head? ≠ some '=' := by
    intro name rest hname
    obtain ⟨c, cs, heq, -⟩ := isWord_parts hname
    have hhead := head?_ne_of_isWord hname
    rw [heq] at hhead ⊢
    exact hhead
  rcases ha.opening with ⟨u, hu⟩ | ⟨u, hu⟩ | ⟨u, hu⟩ <;>
    rcases hb.opening with ⟨v, hv⟩ | ⟨v, hv⟩ | ⟨v, hv⟩ <;>
    rw [hu] at hv
  · exact String.toList_inj.mp (eq_of_append_eq hwa hwb (by decide) (by decide) hv).1
  · exact absurd hv (keyword_ne ha.isWord_name (by decide) (hloop hb.isWord_name))
  · exact absurd hv (keyword_ne ha.isWord_name (by decide) (by simp))
  · exact absurd hv.symm (keyword_ne hb.isWord_name (by decide) (hloop ha.isWord_name))
  · have htail := (List.cons.inj (List.append_cancel_left hv)).2
    exact String.toList_inj.mp (eq_of_append_eq hwa hwb (by decide) (by decide) htail).1
  · simp at hv
  · exact absurd hv.symm (keyword_ne hb.isWord_name (by decide) (by simp))
  · simp at hv
  · have htail := List.append_cancel_left (List.cons.inj (List.append_cancel_left hv)).2
    exact String.toList_inj.mp (eq_of_append_eq hwa hwb (by decide) (by decide) htail).1

theorem isWord_timerState (n : Node) : isWord (timerState n).toList = true := by
  have hsymbol : ∀ c ∈ n.symbolSuffix.toList, isWordChar c = true := by
    intro c hc
    rw [Node.symbolSuffix, symbol, String.toList_map] at hc
    obtain ⟨d, -, rfl⟩ := List.mem_map.mp hc
    exact isWordChar_symbolChar d
  have hall : n.symbolSuffix.toList.all isWordChar = true := List.all_eq_true.mpr hsymbol
  simp [timerState, isWord, hall, isWordChar]

theorem isWord_of_assignedName? {n : Node} {name : String} (h : assignedName? n = some name) :
    isWord name.toList = true := by
  unfold assignedName? at h
  split at h
  · have hitem : isWord "item".toList = true := by decide
    cases h
    exact isWord_nameField n "VAR" hitem
  · have hi : isWord "i".toList = true := by decide
    cases h
    exact isWord_nameField n "VAR" hi
  · cases h
    exact isWord_timerState n
  · cases h

/-! ## The code of the blocks that assign -/

/-- The types of the blocks that assign a variable. -/
def assigningTypes : List String :=
  ["variables_set", "controls_for", "time_every"]

theorem not_alwaysEmitted_of_assigning {type : String} (h : type ∈ assigningTypes) :
    ¬ Target.microPython.backend.alwaysEmitted.contains type = true := by
  have hother : ∀ type ∈ assigningTypes,
      type ∉ ["serial_setup", "servo_attach", "interrupt_attach"] := by
    decide
  simp only [Target.backend, TypeSet.contains_ofList]
  exact hother type h

section Code

variable {g : Graph} {n : Node} {s s' : Run} {steps : List Step} {c : Code}

theorem code_of_assignment
    (h : Job.Course ⟨g, Target.microPython.backend⟩
      (assignment .microPython ⟨g, Target.microPython.backend⟩ n) s steps c s') :
    ∃ value, c = .statement (nameField n "VAR" "item" ++ " = " ++ value ++ "\n") := by
  obtain ⟨_, _, _, _, -, h, -⟩ := h.of_bind
  obtain ⟨_, value, _, _, -, h, -⟩ := h.of_bind
  obtain ⟨-, rfl, -⟩ := h.of_pure
  exact ⟨value, by rw [line_eq rfl]⟩

theorem code_of_countingLoop
    (h : Job.Course ⟨g, Target.microPython.backend⟩
      (countingLoop .microPython ⟨g, Target.microPython.backend⟩ n) s steps c s') :
    ∃ range body,
      c = .statement ("for " ++ nameField n "VAR" "i" ++ " in " ++ range ++ ":\n" ++ body) := by
  obtain ⟨_, _, _, _, -, h, -⟩ := h.of_bind
  obtain ⟨_, start, _, _, -, h, -⟩ := h.of_bind
  obtain ⟨_, last, _, _, -, h, -⟩ := h.of_bind
  obtain ⟨_, step, _, _, -, h, -⟩ := h.of_bind
  obtain ⟨_, body, _, _, -, h, -⟩ := h.of_bind
  obtain ⟨-, rfl, -⟩ := h.of_pure
  exact ⟨countingRange start last step, body, rfl⟩

theorem timedCode_microPython {state : String} (hstate : OneLine state) (interval body : String) :
    timedCode .microPython state interval body =
      "if time.ticks_diff(time.ticks_ms(), " ++ state ++ ") >= " ++ interval ++ ":\n    " ++
        state ++ " = time.ticks_ms()\n" ++ body := by
  have hline : Closing (state ++ " = time.ticks_ms()") := Closing.append hstate (by decide)
  have hfeed : " = time.ticks_ms()\n" = " = time.ticks_ms()" ++ "\n" := by decide
  have hindent : Target.microPython.backend.formatting.indent (state ++ " = time.ticks_ms()\n") =
      "    " ++ (state ++ " = time.ticks_ms()\n") := by
    show indent "    " _ = _
    rw [hfeed, ← String.append_assoc, indent_line hline, String.append_assoc]
  refine (congrArg (fun line => "if time.ticks_diff(time.ticks_ms(), " ++ state ++ ") >= " ++
    interval ++ ":\n" ++ line ++ body) hindent).trans ?_
  apply String.toList_inj.mp
  simp

theorem code_of_procedure {i : NodeId}
    (h : Job.Course ⟨g, Target.microPython.backend⟩
      (procedure .microPython ⟨g, Target.microPython.backend⟩ i n) s steps c s') :
    ∃ body, c = .statement ("def " ++ nameField n "NAME" "do_something" ++ "(" ++
      ", ".intercalate (parameters n) ++ "):\n" ++
        globalLine ⟨g, Target.microPython.backend⟩
          (assignedGlobals ⟨g, Target.microPython.backend⟩ i (parameters n)) ++ body) := by
  obtain ⟨_, stack, _, _, -, h, -⟩ := h.of_bind
  obtain ⟨_, returned, _, _, -, h, -⟩ := h.of_bind
  obtain ⟨-, rfl, -⟩ := h.of_pure
  exact ⟨_, rfl⟩

end Code

/-! ## The line at the beginning -/

theorem globalLine_eq {j : Job} (hb : j.backend = Target.microPython.backend) {names : List String}
    (h : ∀ name ∈ names, Closing name) :
    globalLine j names =
      if names = [] then "" else "    global " ++ ", ".intercalate names ++ "\n" := by
  by_cases hnil : names = []
  · subst hnil
    rfl
  · have hline : Closing ("global " ++ ", ".intercalate names) :=
      Closing.append (by decide) (closing_intercalate (by decide) hnil h)
    rw [globalLine, if_neg (by simpa using hnil), if_neg hnil, indent_eq hb, indent_line hline,
      ← String.append_assoc]
    rfl

theorem mem_assignedGlobals_iff {j : Job} {i : NodeId} {params : List String} {name : String} :
    name ∈ assignedGlobals j i params ↔
      (∃ d ∈ j.graph.descendants i, assignedName? (j.node d) = some name) ∧ name ∉ params := by
  rw [assignedGlobals, List.mem_filter, mem_assignedNames_iff]
  simp

theorem nodup_assignedGlobals (j : Job) (i : NodeId) (params : List String) :
    (assignedGlobals j i params).Nodup :=
  (Dict.nodup_names _).filter _

end Blocks

namespace Job

variable {j : Job} {t : Target}

/-- The request is for no block other than the one given, those inside of it and always-emitted
ones. -/
def AsksInside (j : Job) (p : NodeId) (r : Request) : Prop :=
  j.AsksAside r ∨ ∀ d, r = .generate d → ReflTransGen j.graph.Contains p d

theorem asksInside_blockScript (hb : j.backend = t.backend) {p i : NodeId}
    (hi : j.AsksInside p (.generate i)) :
    (j.blockScript i).Asks (j.AsksInside p) (j.AsksInside p) false := by
  rcases hi with haside | hinside
  · exact (asksAside_blockScript hb haside).mono (fun _ => Or.inl) (fun _ => Or.inl) id
  · refine (j.asks_blockScript i).mono ?_ (fun _ hr => Or.inl (asksAside_of_inPass hr)) id
    intro r hr
    right
    rintro d rfl
    exact (hinside i rfl).tail (contains_of_permits hr)

theorem asksInside_generate (j : Job) (p : NodeId) :
    (Script.generate p).Asks (j.AsksInside p) (j.AsksInside p) false := by
  refine .single (Or.inr ?_) fun _ => .done _
  rintro d hd
  cases hd
  exact .refl

/-- Generating a block comes to that block, to blocks inside of it, and to blocks of the pass. -/
theorem Course.within (hb : j.backend = t.backend) (h : j.graph.IsForest) {p : NodeId} {s s' : Run}
    {steps : List Step} {c : Code} (hcourse : j.Course (Script.generate p) s steps c s')
    {step : Step} (hstep : step ∈ steps) {d : NodeId} (hd : step.request = .generate d) :
    d = p ∨ d ∈ j.graph.descendants p ∨
      j.backend.alwaysEmitted.contains (j.node d).type = true := by
  have hinside := hcourse.forall_request_within (fun i => asksInside_blockScript hb)
    (asksInside_generate j p) step hstep
  rcases hinside with haside | hinside
  · exact Or.inr (Or.inr (haside d hd))
  · rcases reflTransGen_iff_eq_or_transGen.mp (hinside d hd) with rfl | hbelow
    · exact Or.inl rfl
    · exact Or.inr (Or.inl (h.mem_descendants_iff.mpr hbelow))

/-- The code of a block that assigns assigns the name under which the procedure lists it. -/
theorem exists_assigns {g : Graph} {d : NodeId} (htype : (g.node d).type ∈ Blocks.assigningTypes)
    (hin : g.isInside Target.microPython.backend.containers d = true) {s s' : Run}
    {steps : List Step} {c : Code}
    (hcourse : Course ⟨g, Target.microPython.backend⟩
      (blockScript ⟨g, Target.microPython.backend⟩ d) s steps c s') :
    ∃ text name, c = .statement text ∧ Blocks.Assigns text name ∧
      Blocks.assignedName? (g.node d) = some name := by
  simp only [Blocks.assigningTypes, List.mem_cons, List.not_mem_nil, or_false] at htype
  -- Three kinds of blocks assign, each in a line of its own form.
  rcases htype with hset | hfor | hevery
  · have hkind : ((g.node d).type, BlockKind.assignment) ∈ Target.microPython.typeKinds := by
      rw [hset]
      decide
    have hname : Blocks.assignedName? (g.node d) =
        some (Blocks.nameField (g.node d) "VAR" "item") := by
      simp [Blocks.assignedName?, hset]
    rw [blockScript_of_mem hkind] at hcourse
    obtain ⟨value, rfl⟩ := Blocks.code_of_assignment hcourse
    exact ⟨_, _, rfl, .assignment (Blocks.isWord_of_assignedName? hname) value, hname⟩
  · have hname : Blocks.assignedName? (g.node d) =
        some (Blocks.nameField (g.node d) "VAR" "i") := by
      simp [Blocks.assignedName?, hfor]
    rw [blockScript_countingLoop hfor hin] at hcourse
    obtain ⟨range, body, rfl⟩ := Blocks.code_of_countingLoop hcourse
    exact ⟨_, _, rfl, .loop (Blocks.isWord_of_assignedName? hname) range body, hname⟩
  · have hname : Blocks.assignedName? (g.node d) = some (Blocks.timerState (g.node d)) := by
      simp [Blocks.assignedName?, hevery]
    have hword := Blocks.isWord_of_assignedName? hname
    rw [blockScript_timer hevery hin] at hcourse
    obtain ⟨interval, body, rfl⟩ := Blocks.code_of_timedRepeat hcourse
    rw [Blocks.timedCode_microPython (inline_of_isWord hword).oneLine]
    exact ⟨_, _, rfl, .timer hword interval body, hname⟩

end Job

namespace Graph

variable {g : Graph} {p : NodeId}

/-- **A procedure can write the variables that it assigns.**  The body of its MicroPython code begins
with a line that names variables, or with none.  Every assignment, counting loop and timed repeat
that is generated for the procedure, however deep inside, assigns a variable that is a parameter or
is named on that line.  The line names no parameter, no variable twice, and only what blocks inside
of the procedure assign. -/
theorem Built.assigned_or_parameter (h : g.Built)
    (htype : (g.node p).type = "procedures_defnoreturn" ∨ (g.node p).type = "procedures_defreturn")
    (s : Run) :
    ∃ globals body s',
      Job.play? ⟨g, Target.microPython.backend⟩ (Script.generate p) s =
        some (.statement ("def " ++ Blocks.nameField (g.node p) "NAME" "do_something" ++ "(" ++
          ", ".intercalate (Blocks.parameters (g.node p)) ++ "):\n" ++
            (if globals = [] then "" else "    global " ++ ", ".intercalate globals ++ "\n") ++
              body), s') ∧
      globals.Nodup ∧
      (∀ name ∈ globals, isWord name.toList = true ∧ name ∉ Blocks.parameters (g.node p) ∧
        ∃ d ∈ g.descendants p, Blocks.assignedName? (g.node d) = some name) ∧
      ∀ step ∈ Job.steps ⟨g, Target.microPython.backend⟩ (Script.generate p) s,
        ∀ d, step.request = .generate d → (g.node d).type ∈ Blocks.assigningTypes →
          ∃ text s₁, Job.play? ⟨g, Target.microPython.backend⟩ (Script.generate d) step.run =
              some (.statement text, s₁) ∧
            (∃ name, Blocks.Assigns text name) ∧
            ∀ name, Blocks.Assigns text name →
              name ∈ Blocks.parameters (g.node p) ∨ name ∈ globals := by
  let j : Job := ⟨g, Target.microPython.backend⟩
  let params := Blocks.parameters (g.node p)
  obtain ⟨c, s', hplay⟩ := Job.exists_play? (j := j) h.isForest (Script.generate p) s
  have hcourse := Job.course_of_play? hplay
  -- The procedure itself.
  have hkind : ((g.node p).type, BlockKind.procedure) ∈ Target.microPython.typeKinds := by
    rcases htype with htype | htype <;> rw [htype] <;> decide
  have hscript := hplay
  rw [Job.play?_generate h.isForest, Job.blockScript_of_mem hkind] at hscript
  obtain ⟨body, rfl⟩ := Blocks.code_of_procedure (Job.course_of_play? hscript)
  rw [Blocks.globalLine_eq rfl fun _ => Blocks.closing_of_mem_assignedGlobals] at hplay
  refine ⟨Blocks.assignedGlobals j p params, body, s', hplay,
    Blocks.nodup_assignedGlobals j p params, ?_, ?_⟩
  · intro name hname
    obtain ⟨⟨d, hd, hassigned⟩, hparam⟩ := Blocks.mem_assignedGlobals_iff.mp hname
    exact ⟨Blocks.isWord_of_assignedName? hassigned, hparam, d, hd, hassigned⟩
  · intro step hstep d hrequest hassigning
    have hbelow : d ∈ g.descendants p := by
      rcases hcourse.within (t := .microPython) rfl h.isForest hstep hrequest with rfl | hd | hd
      · rcases htype with htype | htype <;> rw [htype] at hassigning <;>
          exact absurd hassigning (by decide)
      · exact hd
      · exact absurd hd (Blocks.not_alwaysEmitted_of_assigning hassigning)
    have hcontainer : Target.microPython.backend.containers.contains (g.node p).type = true := by
      rcases htype with htype | htype <;>
        simp [htype, Target.backend, TypeSet.contains_ofList]
    have hin : g.isInside Target.microPython.backend.containers d = true :=
      h.isInside_iff_exists.mpr ⟨p, hcontainer, hbelow⟩
    obtain ⟨inside, c, s₁, hinside, -⟩ := hcourse.exists_inside hstep hrequest
    obtain ⟨text, name, rfl, hassigns, hname⟩ := Job.exists_assigns hassigning hin hinside
    refine ⟨text, s₁, (Job.play?_generate h.isForest d step.run).trans
      (hinside.play?_eq h.isForest), ⟨name, hassigns⟩, ?_⟩
    intro other hother
    obtain rfl := hother.unique hassigns
    by_cases hparam : other ∈ params
    · exact Or.inl hparam
    · exact Or.inr (Blocks.mem_assignedGlobals_iff.mpr ⟨⟨d, hbelow, hname⟩, hparam⟩)

/-- A procedure with a parameter, in which a timed repeat inside of a counting loop sets the
parameter and another variable. -/
def countDraft : Draft :=
  [.node "count" "procedures_defnoreturn", .node "rounds" "controls_for", .node "poll" "time_every",
    .node "own" "variables_set", .node "other" "variables_set", .setField 0 "PARAMS" "x",
    .setField 3 "VAR" "x", .setField 4 "VAR" "total", .setStatement 0 "STACK" 1,
    .setStatement 1 "DO" 2, .setBody 2 "DO" [3, 4]].foldl (fun d e => Draft.Edit.apply e d) {}

theorem countDraft_reachable : countDraft.Reachable :=
  Draft.reachable_of_edits rfl

theorem Built.assigned_or_parameter_nested :
    countDraft.toGraph.Built ∧
      [1, 2, 3, 4] ⊆ Step.blocks
        (Job.steps ⟨countDraft.toGraph, Target.microPython.backend⟩ (Script.generate 0) {}) ∧
      ∃ globals body s',
        Job.play? ⟨countDraft.toGraph, Target.microPython.backend⟩ (Script.generate 0) {} =
          some (.statement ("def do_something(x):\n" ++
            (if globals = [] then "" else "    global " ++ ", ".intercalate globals ++ "\n") ++
              body), s') ∧
        "x" ∉ globals ∧
        ∀ step ∈ Job.steps ⟨countDraft.toGraph, Target.microPython.backend⟩ (Script.generate 0) {},
          step.request = .generate 4 →
            ∃ text s₁, Job.play? ⟨countDraft.toGraph, Target.microPython.backend⟩
                (Script.generate 4) step.run = some (.statement text, s₁) ∧
              ∃ name, Blocks.Assigns text name ∧ (name = "x" ∨ name ∈ globals) := by
  have hbuilt := countDraft_reachable.built rfl
  refine ⟨hbuilt, by decide, ?_⟩
  obtain ⟨globals, body, s', hplay, -, hglobals, hsteps⟩ :=
    hbuilt.assigned_or_parameter (p := 0) (Or.inl rfl) {}
  have hparams : Blocks.parameters (countDraft.toGraph.node 0) = ["x"] := by decide +kernel
  have hhead : "def " ++ Blocks.nameField (countDraft.toGraph.node 0) "NAME" "do_something" ++
      "(" ++ ", ".intercalate (Blocks.parameters (countDraft.toGraph.node 0)) ++ "):\n" =
        "def do_something(x):\n" := by
    decide +kernel
  rw [hhead] at hplay
  refine ⟨globals, body, s', hplay, ?_, ?_⟩
  · intro hx
    exact (hglobals "x" hx).2.1 (by simp [hparams])
  · intro step hstep hrequest
    obtain ⟨text, s₁, hcode, ⟨name, hname⟩, hlisted⟩ := hsteps step hstep 4 hrequest (by decide)
    refine ⟨text, s₁, hcode, name, hname, ?_⟩
    simpa [hparams] using hlisted name hname

end Graph

end BlockCompiler
