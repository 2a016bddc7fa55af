import BlockCompiler.Proofs.Expression.Literal
import BlockCompiler.Proofs.Generation.Inputs
import BlockCompiler.Proofs.Generation.Statements

/-!
# Statements are whole lines

Statements are put below each other by joining their texts, with nothing in between.  That
is right only if every statement brings the end of its last line with it.  An expression,
on the other hand, has to fit into a line.  `linewise` is the contract that says both: the
first holds whatever a program and the conventions of a backend are, the second as long as
the two fields that are copied into expressions break no line (`Node.IsFlat`).

Each generator keeps to it (`Generator.keepsLines_script`).  So sequences, slots and bodies
are piles of whole lines (`Text.IsPile`), and no line holds parts of two statements
(`Graph.Built.statements_whole`).
-/

namespace BlockCompiler

open Text Script

/-! ## Piles of whole lines -/

namespace Text

variable {a b : String}

/-- A text that ends in a line feed is whole, whatever comes before. -/
theorem isWhole_append_of_getLast? (h : b.toList.getLast? = some '\n') : IsWhole (a ++ b) := by
  right
  simp [List.getLast?_append, h]

/-- Pieces that are whole lines keep their lines when they are joined. -/
theorem lines_join {pieces : List String} (h : ∀ piece ∈ pieces, IsWhole piece) :
    lines (String.join pieces) = pieces.flatMap lines := by
  induction pieces with
  | nil => rfl
  | cons piece rest ih =>
    obtain ⟨hpiece, hrest⟩ := List.forall_mem_cons.mp h
    rw [String.join_cons, lines_append hpiece, ih hrest, List.flatMap_cons]

/-- The text consists of the pieces, each of them a number of whole lines: no line of the text has
parts of two pieces. -/
structure IsPile (pieces : List String) (text : String) : Prop where
  eq_join : text = String.join pieces
  whole_pieces : ∀ piece ∈ pieces, IsWhole piece
  whole : IsWhole text
  lines_eq : lines text = pieces.flatMap lines

/-- Joining whole lines makes a pile. -/
theorem isPile_join {pieces : List String} (h : ∀ piece ∈ pieces, IsWhole piece) :
    IsPile pieces (String.join pieces) :=
  ⟨rfl, h, isWhole_join h, lines_join h⟩

/-- Parentheses break no line. -/
theorem OneLine.parenthesize {text : String} (h : OneLine text) (inner outer : Order) :
    OneLine (parenthesize text inner outer) := by
  rw [BlockCompiler.parenthesize]
  split
  · exact (OneLine.append (by decide) h).append (by decide)
  · exact h

end Text

/-! ## What the blocks agree on -/

/-- Statements are whole lines, and if the program is `flat` expressions break no line. -/
def Code.KeepsLines (flat : Prop) : Code → Prop
  | .statement text => IsWhole text
  | .expression text _ => flat → OneLine text

/-- All blocks keep to lines; nothing is asked of what they register. -/
def linewise (flat : Prop) : Contract where
  code _ code := code.KeepsLines flat
  declared _ := True
  prepared _ := True

/-- The two fields that expressions copy break no line. -/
def Node.IsFlat (n : Node) : Prop :=
  ∀ name ∈ ["PIN", "NUM"], ∀ text ∈ n.fields.get? name, OneLine text

instance (n : Node) : Decidable n.IsFlat :=
  inferInstanceAs (Decidable (∀ name ∈ ["PIN", "NUM"], ∀ text ∈ n.fields.get? name, OneLine text))

/-- What an expression copies from a field is one line. -/
theorem Node.IsFlat.oneLine_fieldOr {n : Node} (h : n.IsFlat) {name fallback : String}
    (hname : name ∈ ["PIN", "NUM"]) (hfallback : OneLine fallback) :
    OneLine (n.fieldOr name fallback) := by
  rw [Node.fieldOr]
  split
  · rename_i text htext
    split
    · exact hfallback
    · exact h name hname text htext
  · exact hfallback

section Slots

variable {flat : Prop} {α : Type} {j : Job} {n : Node}

/-- Every script obeys the contract as long as nothing is said about its result. -/
theorem obeys_linewise (script : Script α) : script.Obeys (linewise flat) fun _ => True := by
  induction script with
  | done a => exact .done trivial
  | ask r resume ih => exact .ask (by cases r <;> trivial) fun reply _ => ih reply

/-- A value fits into a line if what stands in for a missing one does. -/
theorem oneLine_valueCode (slot : String) (outer : Order) {fallback : String}
    (hfallback : OneLine fallback) :
    (j.valueCode n slot outer fallback).Obeys (linewise flat) fun text => flat → OneLine text :=
  Job.obeys_valueCode_of (fun _ => hfallback) <|
    Job.obeys_valueCode?_of (fun _ _ _ hcode => hcode)
      (fun _ inner outer htext hflat => (htext hflat).parenthesize inner outer) n slot outer

/-- A line ends in a line feed. -/
theorem isWhole_jobLine (text : String) : IsWhole (j.line text) :=
  isWhole_line _

/-- Indentation ends the last line. -/
theorem isWhole_jobIndent (text : String) : IsWhole (j.indent text) :=
  isWhole_indent _ _

/-- An expression in the place of a statement gets a line of its own. -/
theorem isWhole_statementText {code : Code} (h : code.KeepsLines flat) :
    IsWhole (j.statementText code) := by
  cases code with
  | statement text => exact h
  | expression text order =>
    rw [Job.statementText]
    split
    · exact isWhole_empty
    · exact isWhole_jobLine text

/-- The statements in a slot are whole lines. -/
theorem isWhole_slotCode (slot : String) : (j.slotCode n slot).Obeys (linewise flat) IsWhole := by
  unfold Job.slotCode
  cases n.statements.get? slot with
  | none => exact obeys_pure isWhole_empty
  | some head => exact (obeys_linewise _).result fun text _ => isWhole_jobIndent text

/-- The filler is a whole line too. -/
theorem isWhole_fillBody {text : String} (h : IsWhole text) : IsWhole (j.fillBody text) := by
  unfold Job.fillBody
  split
  · split
    · exact isWhole_jobIndent _
    · exact h
  · exact h

theorem isWhole_bodyCode (slot : String) : (j.bodyCode n slot).Obeys (linewise flat) IsWhole :=
  (isWhole_slotCode slot).result fun _ htext => isWhole_fillBody htext

end Slots

/-! ## Expressions -/

namespace Blocks

variable {flat : Prop} {t : Target} {j : Job} {n : Node} {i : NodeId}

/-- Operators put their operands on one line. -/
theorem keepsLines_binary {sign fallback : String} (order : Order) (hsign : OneLine sign)
    (hfallback : OneLine fallback) :
    (binary j n sign order fallback).Obeys (linewise flat) (Code.KeepsLines flat) := by
  refine (oneLine_valueCode "A" order hfallback).bind fun a ha => ?_
  refine (oneLine_valueCode "B" order hfallback).result fun b hb hflat => ?_
  exact ((((ha hflat).append (by decide)).append hsign).append (by decide)).append (hb hflat)

theorem keepsLines_powerCall : (powerCall t j n).Obeys (linewise flat) (Code.KeepsLines flat) := by
  refine (oneLine_valueCode "A" _ (by decide)).bind fun a ha => ?_
  refine (oneLine_valueCode "B" _ (by decide)).result fun b hb hflat => ?_
  have hfront : OneLine ("pow(" ++ a ++ ", ") :=
    (OneLine.append (by decide) (ha hflat)).append (by decide)
  exact (hfront.append (hb hflat)).append (by decide)

theorem keepsLines_arithmetic :
    (arithmetic t j n).Obeys (linewise flat) (Code.KeepsLines flat) := by
  have happly : ∀ op, (applyArithmetic t j n op).Obeys (linewise flat) (Code.KeepsLines flat) := by
    intro op
    have hsign : OneLine op.sign := by cases op <;> decide
    unfold applyArithmetic
    split
    · exact keepsLines_powerCall
    · exact keepsLines_binary _ hsign (by decide)
  simp only [arithmetic]
  split
  · exact happly _
  · exact (obeys_linewise _).bind fun _ _ => happly _

theorem keepsLines_comparison :
    (comparison t j n).Obeys (linewise flat) (Code.KeepsLines flat) := by
  have hsign : ∀ op : ComparisonOp, OneLine op.sign := by
    intro op
    cases op <;> decide
  exact keepsLines_binary _ (hsign _) (by decide)

theorem oneLine_truth (t : Target) (b : Bool) : OneLine (t.truth b) := by
  cases t <;> cases b <;> decide

theorem keepsLines_logic : (logic t j n).Obeys (linewise flat) (Code.KeepsLines flat) := by
  have hsign : ∀ op : LogicOp, OneLine (op.sign t) := by
    intro op
    cases t <;> cases op <;> decide
  exact keepsLines_binary _ (hsign _) (oneLine_truth t false)

theorem keepsLines_negation : (negation t j n).Obeys (linewise flat) (Code.KeepsLines flat) := by
  have hsign : OneLine t.negationSign := by cases t <;> decide
  refine (oneLine_valueCode "BOOL" _ (oneLine_truth t true)).result fun operand hoperand hflat => ?_
  exact hsign.append (hoperand hflat)

/-- The arguments of a call stand on one line. -/
theorem oneLine_call : (call t j n).Obeys (linewise flat) fun text => flat → OneLine text := by
  have hnone : OneLine t.noArgument := by cases t <;> decide
  have hname : OneLine (nameField n "NAME" "do_something") :=
    (inline_nameField n "NAME" "do_something" (by decide)).oneLine
  refine (Obeys.mapM (q := fun text => flat → OneLine text) fun k _ =>
    oneLine_valueCode _ _ hnone).result fun args hargs hflat => ?_
  have hlist : OneLine (", ".intercalate args) :=
    oneLine_intercalate (by decide) args fun arg harg => hargs arg harg hflat
  exact ((hname.append (by decide)).append hlist).append (by decide)

/-- The pin that is read is one of the fields that have to be flat. -/
theorem keepsLines_digitalRead (h : flat → n.IsFlat) :
    (digitalRead t n).Obeys (linewise flat) (Code.KeepsLines flat) := by
  cases t with
  | arduino =>
    refine (obeys_linewise _).result fun _ _ hflat => ?_
    have hpin : OneLine (n.fieldOr "PIN" "2") := (h hflat).oneLine_fieldOr (by decide) (by decide)
    exact (OneLine.append (by decide) hpin).append (by decide)
  | microPython =>
    refine (obeys_linewise _).bind fun _ _ => (obeys_linewise _).result fun _ _ _ => ?_
    exact (OneLine.append (by decide) (oneLine_suffix _)).append (by decide)

theorem keepsLines_analogRead (h : flat → n.IsFlat) :
    (analogRead t n).Obeys (linewise flat) (Code.KeepsLines flat) := by
  cases t with
  | arduino =>
    refine obeys_pure fun hflat => ?_
    have hpin : OneLine (n.fieldOr "PIN" "A0") := (h hflat).oneLine_fieldOr (by decide) (by decide)
    exact (OneLine.append (by decide) hpin).append (by decide)
  | microPython =>
    refine (obeys_linewise _).bind fun _ _ => (obeys_linewise _).bind fun _ _ =>
      (obeys_linewise _).result fun _ _ _ => ?_
    exact (OneLine.append (by decide) (oneLine_suffix _)).append (by decide)

theorem keepsLines_milliseconds :
    (milliseconds t).Obeys (linewise flat) (Code.KeepsLines flat) := by
  cases t with
  | arduino => exact obeys_pure fun _ => by decide
  | microPython => exact (obeys_linewise _).result fun _ _ _ => by decide

/-! ## Statements of one line -/

/-- A statement ends its line, also if a value in it should break one. -/
theorem keepsLines_digitalWrite :
    (digitalWrite t j n).Obeys (linewise flat) (Code.KeepsLines flat) := by
  cases t with
  | arduino => exact (obeys_linewise _).bind fun _ _ => (obeys_linewise _).result fun _ _ =>
      isWhole_jobLine _
  | microPython => exact (obeys_linewise _).bind fun _ _ => (obeys_linewise _).bind fun _ _ =>
      (obeys_linewise _).result fun _ _ => isWhole_jobLine _

theorem keepsLines_analogWrite :
    (analogWrite t j n).Obeys (linewise flat) (Code.KeepsLines flat) := by
  cases t with
  | arduino => exact (obeys_linewise _).bind fun _ _ => (obeys_linewise _).result fun _ _ =>
      isWhole_jobLine _
  | microPython => exact (obeys_linewise _).bind fun _ _ => (obeys_linewise _).bind fun _ _ =>
      (obeys_linewise _).bind fun _ _ => (obeys_linewise _).result fun _ _ => isWhole_jobLine _

theorem keepsLines_delay : (delay t j n).Obeys (linewise flat) (Code.KeepsLines flat) := by
  cases t with
  | arduino => exact (obeys_linewise _).result fun _ _ => isWhole_jobLine _
  | microPython => exact (obeys_linewise _).bind fun _ _ => (obeys_linewise _).result fun _ _ =>
      isWhole_jobLine _

theorem keepsLines_serialPrint :
    (serialPrint t j n).Obeys (linewise flat) (Code.KeepsLines flat) := by
  cases t <;> exact (obeys_linewise _).result fun _ _ => isWhole_jobLine _

theorem keepsLines_servoWrite :
    (servoWrite t j n).Obeys (linewise flat) (Code.KeepsLines flat) := by
  cases t with
  | arduino => exact (obeys_linewise _).result fun _ _ => isWhole_jobLine _
  | microPython => exact (obeys_linewise _).bind fun _ _ => (obeys_linewise _).result fun _ _ =>
      isWhole_jobLine _

theorem keepsLines_assignment :
    (assignment t j n).Obeys (linewise flat) (Code.KeepsLines flat) := by
  cases t <;>
    exact (obeys_linewise _).bind fun _ _ => (obeys_linewise _).result fun _ _ => isWhole_jobLine _

theorem keepsLines_returnStatement :
    (returnStatement j n).Obeys (linewise flat) (Code.KeepsLines flat) := by
  refine (obeys_linewise _).bind fun value _ => ?_
  cases value <;> exact obeys_pure (isWhole_jobLine _)

/-- The comment that stands outside of loops is made of whole lines. -/
theorem keepsLines_loopExit : (loopExit j i n).Obeys (linewise flat) (Code.KeepsLines flat) := by
  unfold loopExit
  cases j.standsInLoop i with
  | true => exact obeys_pure (isWhole_jobLine _)
  | false => exact (obeys_linewise _).result fun _ _ => isWhole_mapLines _ _

/-! ## Blocks that only register -/

/-- Blocks that only register turn into the empty text, which is whole. -/
theorem keepsLines_serialSetup :
    (serialSetup t n).Obeys (linewise flat) (Code.KeepsLines flat) := by
  cases t with
  | arduino => exact (obeys_linewise _).result fun _ _ => isWhole_empty
  | microPython =>
    exact (obeys_linewise _).bind fun _ _ => (obeys_linewise _).result fun _ _ => isWhole_empty

theorem keepsLines_servoAttach :
    (servoAttach t n).Obeys (linewise flat) (Code.KeepsLines flat) := by
  cases t <;>
    exact (obeys_linewise _).bind fun _ _ => (obeys_linewise _).bind fun _ _ =>
      (obeys_linewise _).result fun _ _ => isWhole_empty

theorem keepsLines_interruptAttach :
    (interruptAttach t n).Obeys (linewise flat) (Code.KeepsLines flat) := by
  refine (obeys_linewise _).bind fun trigger _ => ?_
  cases t with
  | arduino =>
    exact (obeys_linewise _).bind fun _ _ => (obeys_linewise _).result fun _ _ => isWhole_empty
  | microPython =>
    exact (obeys_linewise _).bind fun _ _ => (obeys_linewise _).bind fun _ _ =>
      (obeys_linewise _).result fun _ _ => isWhole_empty

/-! ## Control blocks

With braces the closing brace ends the last line.  Without them the header ends its own line, and
the body brings its lines with it, if there are any. -/

/-- A header ends its own line. -/
theorem isWhole_headed {header body : String} (hbody : IsWhole body) :
    IsWhole (header ++ ":\n" ++ body) :=
  (isWhole_append_of_getLast? (by decide)).append hbody

theorem keepsLines_conditional :
    (conditional t j n).Obeys (linewise flat) (Code.KeepsLines flat) := by
  cases t with
  | arduino =>
    refine (obeys_linewise _).bind fun branches _ => (obeys_linewise _).result fun otherwise _ => ?_
    exact isWhole_line _
  | microPython =>
    have hbranch : ∀ k, (colonBranch j n k).Obeys (linewise flat) IsWhole := by
      intro k
      refine (obeys_linewise _).bind fun condition _ => ?_
      exact (isWhole_bodyCode _).result fun body hbody => isWhole_headed hbody
    have hotherwise : (colonOtherwise j n).Obeys (linewise flat) IsWhole := by
      unfold colonOtherwise
      split
      · refine (isWhole_bodyCode _).result fun body hbody => ?_
        exact (isWhole_append_of_getLast? (a := "else") (b := ":\n") (by decide)).append hbody
      · exact obeys_pure isWhole_empty
    refine (Obeys.mapM fun k _ => hbranch k).bind fun branches hbranches => ?_
    exact hotherwise.result fun otherwise hend => (isWhole_join hbranches).append hend

theorem keepsLines_repeatLoop :
    (repeatLoop t j n).Obeys (linewise flat) (Code.KeepsLines flat) := by
  cases t with
  | arduino =>
    refine (obeys_linewise _).bind fun times _ => (obeys_linewise _).result fun body _ => ?_
    exact isWhole_append_of_getLast? (by decide)
  | microPython =>
    refine (obeys_linewise _).bind fun times _ => (isWhole_bodyCode _).result fun body hbody => ?_
    exact (isWhole_append_of_getLast? (by decide)).append hbody

theorem keepsLines_conditionLoop :
    (conditionLoop t j n).Obeys (linewise flat) (Code.KeepsLines flat) := by
  refine (obeys_linewise _).bind fun condition _ => ?_
  cases t with
  | arduino =>
    exact (obeys_linewise _).result fun body _ => isWhole_append_of_getLast? (by decide)
  | microPython =>
    exact (isWhole_bodyCode _).result fun body hbody => isWhole_headed hbody

theorem keepsLines_countingLoop :
    (countingLoop t j n).Obeys (linewise flat) (Code.KeepsLines flat) := by
  cases t with
  | arduino =>
    refine (obeys_linewise _).bind fun _ _ => (obeys_linewise _).bind fun start _ =>
      (obeys_linewise _).bind fun last _ => (obeys_linewise _).bind fun step _ =>
        (obeys_linewise _).result fun body _ => ?_
    exact isWhole_append_of_getLast? (by decide)
  | microPython =>
    refine (obeys_linewise _).bind fun _ _ => (obeys_linewise _).bind fun start _ =>
      (obeys_linewise _).bind fun last _ => (obeys_linewise _).bind fun step _ =>
        (isWhole_bodyCode _).result fun body hbody => ?_
    exact isWhole_headed hbody

theorem keepsLines_timedRepeat :
    (timedRepeat t j n).Obeys (linewise flat) (Code.KeepsLines flat) := by
  cases t with
  | arduino =>
    refine (obeys_linewise _).bind fun _ _ => (obeys_linewise _).bind fun interval _ =>
      (obeys_linewise _).result fun body _ => ?_
    exact isWhole_append_of_getLast? (by decide)
  | microPython =>
    refine (obeys_linewise _).bind fun _ _ => (obeys_linewise _).bind fun _ _ =>
      (obeys_linewise _).bind fun interval _ => (isWhole_slotCode _).result fun body hbody => ?_
    exact (isWhole_headed (isWhole_jobIndent _)).append hbody

/-! ## Routines -/

theorem isWhole_returnLine : (returnLine j n).Obeys (linewise flat) IsWhole := by
  unfold returnLine
  split
  · refine (obeys_linewise _).bind fun value _ => ?_
    cases value with
    | none => exact obeys_pure isWhole_empty
    | some text => exact obeys_pure (isWhole_jobIndent _)
  · exact obeys_pure isWhole_empty

theorem isWhole_globalLine (names : List String) : IsWhole (globalLine j names) := by
  rw [globalLine]
  split
  · exact isWhole_empty
  · exact isWhole_jobIndent _

/-- A procedure ends with its closing brace, or with the last line of its body. -/
theorem keepsLines_procedure :
    (procedure t j i n).Obeys (linewise flat) (Code.KeepsLines flat) := by
  cases t with
  | arduino =>
    refine (obeys_linewise _).bind fun _ _ => (obeys_linewise _).bind fun stack _ =>
      (obeys_linewise _).result fun returned _ => ?_
    exact isWhole_append_of_getLast? (by decide)
  | microPython =>
    refine (isWhole_slotCode _).bind fun stack hstack => isWhole_returnLine.result
      fun returned hreturned => ?_
    have hbody : IsWhole (if blank stack && returned.isEmpty then j.indent "pass\n"
        else stack ++ returned) := by
      split
      · exact isWhole_jobIndent _
      · exact hstack.append hreturned
    exact ((isWhole_append_of_getLast? (by decide)).append (isWhole_globalLine _)).append hbody

/-- An entry point ends with the body of its loop. -/
theorem keepsLines_entry : (entry t j n).Obeys (linewise flat) (Code.KeepsLines flat) := by
  refine (obeys_linewise _).bind fun _ _ => (obeys_linewise _).bind fun _ _ => ?_
  cases t with
  | arduino =>
    refine (obeys_linewise _).bind fun setup _ => (obeys_linewise _).bind fun loop _ =>
      (obeys_linewise _).result fun lines _ => ?_
    exact isWhole_append_of_getLast? (by decide)
  | microPython =>
    have hloop : ∀ setup : String, (do
        let loop ← j.bodyCode n "LOOP"
        let lines ← Script.setupLines
        let opening := lines ++ setup
        return .statement
          (opening ++ (if opening.isEmpty then "" else "\n") ++ "while True:\n" ++ loop) :
            Script Code).Obeys (linewise flat) (Code.KeepsLines flat) := by
      intro setup
      refine (isWhole_bodyCode _).bind fun loop hloop => (obeys_linewise _).result fun lines _ => ?_
      exact (isWhole_append_of_getLast? (by decide)).append hloop
    dsimp only
    cases n.statements.get? "SETUP" with
    | some head => exact (obeys_linewise _).bind fun setup _ => hloop setup
    | none => exact hloop ""

end Blocks

/-! ## All blocks -/

namespace Generator

/-- **Every generator keeps to lines**, whatever the conventions of the backend are. -/
theorem keepsLines_script (gen : Generator) (j : Job) (i : NodeId) {flat : Prop}
    (hflat : flat → (j.node i).IsFlat) :
    (gen.script j i).Obeys (linewise flat) (Code.KeepsLines flat) := by
  obtain ⟨t, kind⟩ := gen
  have hguard : ∀ {code : Script Code}, code.Obeys (linewise flat) (Code.KeepsLines flat) →
      (j.guarded i code).Obeys (linewise flat) (Code.KeepsLines flat) :=
    fun hcode => Job.obeys_guarded_of isWhole_empty fun _ => hcode
  cases kind with
  | entry => exact Blocks.keepsLines_entry
  | procedure => exact Blocks.keepsLines_procedure
  | serialSetup => exact Blocks.keepsLines_serialSetup
  | servoAttach => exact Blocks.keepsLines_servoAttach
  | interruptAttach => exact Blocks.keepsLines_interruptAttach
  | conditional => exact hguard Blocks.keepsLines_conditional
  | repeatLoop => exact hguard Blocks.keepsLines_repeatLoop
  | conditionLoop => exact hguard Blocks.keepsLines_conditionLoop
  | countingLoop => exact hguard Blocks.keepsLines_countingLoop
  | loopExit => exact hguard Blocks.keepsLines_loopExit
  | returnStatement => exact hguard Blocks.keepsLines_returnStatement
  | timedRepeat => exact hguard Blocks.keepsLines_timedRepeat
  | assignment => exact Blocks.keepsLines_assignment
  | digitalWrite => exact Blocks.keepsLines_digitalWrite
  | analogWrite => exact Blocks.keepsLines_analogWrite
  | serialPrint => exact Blocks.keepsLines_serialPrint
  | delay => exact Blocks.keepsLines_delay
  | servoWrite => exact Blocks.keepsLines_servoWrite
  | callStatement => exact (obeys_linewise _).result fun _ _ => isWhole_jobLine _
  | number =>
    refine obeys_pure fun h => ?_
    exact ((hflat h).oneLine_fieldOr (by decide) (by decide)).trim
  | arithmetic => exact Blocks.keepsLines_arithmetic
  | boolean => exact obeys_pure fun _ => Blocks.oneLine_truth t _
  | comparison => exact Blocks.keepsLines_comparison
  | logic => exact Blocks.keepsLines_logic
  | negation => exact Blocks.keepsLines_negation
  | text => exact obeys_pure fun _ => Literal.not_mem_literal t _
  | variableValue => exact obeys_pure fun _ => (inline_nameField _ "VAR" "item" (by decide)).oneLine
  | digitalRead => exact Blocks.keepsLines_digitalRead hflat
  | analogRead => exact Blocks.keepsLines_analogRead hflat
  | milliseconds => exact Blocks.keepsLines_milliseconds
  | callExpression => exact Blocks.oneLine_call.result fun _ htext => htext

end Generator

namespace Job

variable {j : Job} {α β : Type}

/-- The two fields that expressions copy break no line in the whole program. -/
def IsFlat (j : Job) : Prop :=
  ∀ i < j.graph.size, (j.node i).IsFlat

/-- Outside of the graph there are no fields. -/
theorem IsFlat.node (h : j.IsFlat) (i : NodeId) : (j.node i).IsFlat := by
  rcases Nat.lt_or_ge i j.graph.size with hi | hi
  · exact h i hi
  · have hnode : j.node i = default := j.graph.node_of_size_le hi
    rw [hnode]
    intro name _ text htext
    cases htext

/-- Every block keeps to lines, those without a generator as well. -/
theorem keepsLines_blockScript (j : Job) (i : NodeId) :
    (j.blockScript i).Obeys (linewise j.IsFlat) (Code.KeepsLines j.IsFlat) :=
  obeys_blockScript_of_get? isWhole_empty fun gen _ =>
    gen.keepsLines_script j i fun hflat => hflat.node i

/-- What holds of the result of a script under the contract holds of what playing it gives. -/
theorem keepsLines_of_play? {script : Script α} {p : α → Prop}
    (h : script.Obeys (linewise j.IsFlat) p) {s s' : Run} {a : α}
    (hplay : j.play? script s = some (a, s')) : p a :=
  (kept_of_play? j.keepsLines_blockScript h ⟨fun _ _ => trivial, fun _ _ => trivial⟩ hplay).1

/-- Blocks that are generated one after the other give pieces of whole lines. -/
theorem InTurn.isWhole_statementText {blocks : List NodeId} {codes : List Code} {s s' : Run}
    (h : j.InTurn Script.generate blocks codes s s') :
    ∀ piece ∈ codes.map j.statementText, IsWhole piece := by
  induction h with
  | nil => exact fun _ hpiece => absurd hpiece List.not_mem_nil
  | @cons i _ code _ _ _ _ hfirst _ ih =>
    have hcode : code.KeepsLines j.IsFlat := keepsLines_of_play? (obeys_generate i) hfirst
    exact List.forall_mem_cons.mpr ⟨BlockCompiler.isWhole_statementText hcode, ih⟩

/-- Indentation moves each piece of a pile on its own. -/
theorem isPile_indent {pieces : List String} (h : ∀ piece ∈ pieces, IsWhole piece) :
    IsPile (pieces.map j.indent) (j.indent (String.join pieces)) := by
  have hindent : j.indent (String.join pieces) = String.join (pieces.map j.indent) :=
    indent_join _ h
  rw [hindent]
  refine isPile_join fun piece hpiece => ?_
  obtain ⟨inner, -, rfl⟩ := List.mem_map.mp hpiece
  exact isWhole_jobIndent inner

/-- A body is made of the pieces in its slot, or of the filler alone. -/
theorem isPile_fillBody {pieces : List String} {text : String} (h : IsPile pieces text) :
    IsPile pieces (j.fillBody text) ∨
      (blank text = true ∧ ∃ filler ∈ j.formatting.emptyBody,
        IsPile [j.indent (j.line filler)] (j.fillBody text)) := by
  unfold fillBody
  cases hfiller : j.formatting.emptyBody with
  | none => exact Or.inl h
  | some filler =>
    dsimp only
    by_cases hblank : blank text = true
    · rw [if_pos hblank]
      refine Or.inr ⟨hblank, filler, rfl, ?_⟩
      have hjoin : String.join [j.indent (j.line filler)] = j.indent (j.line filler) := by
        rw [String.join_cons, String.join_nil, String.append_empty]
      have hpile := isPile_join (List.forall_mem_singleton.mpr
        (isWhole_jobIndent (j := j) (j.line filler)))
      rwa [hjoin] at hpile
    · rw [if_neg hblank]
      exact Or.inl h

end Job

/-- **Statements are whole lines.**  On every run each block turns into statements that are empty or
end in a line feed, or into an expression, which breaks no line if no field for pins or numbers
does.  Therefore sequences, slots and bodies are piles of whole lines: none of their lines has parts
of two statements. -/
theorem Graph.Built.statements_whole {j : Job} (h : j.graph.Built) (s : Run) :
    (∀ i, ∃ code s', j.play? (Script.generate i) s = some (code, s') ∧ code.KeepsLines j.IsFlat) ∧
    (∀ head, ∃ codes text s', j.InTurn Script.generate (j.graph.chain head) codes s s' ∧
      j.play? (j.chainCode head) s = some (text, s') ∧ IsPile (codes.map j.statementText) text) ∧
    ∀ (owner : Node) (slot : String), ∃ codes text s',
      j.InTurn Script.generate (j.slotChain owner slot) codes s s' ∧
      j.play? (j.slotCode owner slot) s = some (text, s') ∧
      j.play? (j.bodyCode owner slot) s = some (j.fillBody text, s') ∧
      IsPile ((codes.map j.statementText).map j.indent) text ∧
      (IsPile ((codes.map j.statementText).map j.indent) (j.fillBody text) ∨
        (blank text = true ∧ ∃ filler ∈ j.formatting.emptyBody,
          IsPile [j.indent (j.line filler)] (j.fillBody text))) := by
  refine ⟨fun i => ?_, fun head => ?_, fun owner slot => ?_⟩
  · obtain ⟨code, s', hplay⟩ := Job.exists_play? (j := j) h.isForest (Script.generate i) s
    exact ⟨code, s', hplay, Job.keepsLines_of_play? (obeys_generate i) hplay⟩
  · obtain ⟨text, s', hplay⟩ := Job.exists_play? (j := j) h.isForest (j.chainCode head) s
    obtain ⟨codes, hcodes, rfl⟩ := Job.exists_of_play?_chainCode hplay
    exact ⟨codes, _, s', hcodes, hplay, isPile_join hcodes.isWhole_statementText⟩
  · obtain ⟨text, s', hplay⟩ := Job.exists_play? (j := j) h.isForest (j.slotCode owner slot) s
    obtain ⟨codes, hcodes, rfl⟩ := Job.exists_of_play?_slotCode hplay
    have hpile := Job.isPile_indent (j := j) hcodes.isWhole_statementText
    refine ⟨codes, _, s', hcodes, hplay, ?_, hpile, Job.isPile_fillBody hpile⟩
    rw [Job.bodyCode, Job.play?_bind, hplay]
    rfl

/-- A bare number in front of a statement, in the loop of an entry point. -/
def bareNumberDraft : Draft :=
  [.node "main" "arduino_entry", .node "bare" "math_number", .node "wait" "time_delay",
    .node "ticks" "math_number", .setField 1 "NUM" " 5 ", .setField 3 "NUM" "250",
    .setValue 2 "DELAY_TIME" 3, .setBody 0 "LOOP" [1, 2]].foldl
    (fun d e => Draft.Edit.apply e d) {}

theorem bareNumberDraft_reachable : bareNumberDraft.Reachable :=
  Draft.reachable_of_edits rfl

def bareNumberJob : Job :=
  ⟨bareNumberDraft.toGraph, Target.microPython.backend⟩

/-- The number, which is an expression, gets a line of its own. -/
theorem Graph.Built.statements_whole_bareNumber :
    bareNumberJob.graph.Built ∧ bareNumberJob.IsFlat ∧
      (∃ text order s', bareNumberJob.play? (Script.generate 1) {} =
        some (.expression text order, s') ∧ OneLine text) ∧
      ∃ codes s', bareNumberJob.InTurn Script.generate [1, 2] codes {} s' ∧
        IsPile ((codes.map bareNumberJob.statementText).map bareNumberJob.indent)
          "    5\n    time.sleep_ms(250)\n" := by
  have hbuilt : bareNumberJob.graph.Built := bareNumberDraft_reachable.built rfl
  have hflat : bareNumberJob.IsFlat := by
    show ∀ i < 4, (bareNumberJob.node i).IsFlat
    decide
  obtain ⟨hblocks, -, hslots⟩ := Graph.Built.statements_whole hbuilt {}
  obtain ⟨code, s₁, hcode, hkeeps⟩ := hblocks 1
  obtain ⟨codes, text, s₂, hcodes, hplay, -, hpile, -⟩ := hslots (bareNumberJob.node 0) "LOOP"
  refine ⟨hbuilt, hflat, ?_, codes, s₂, hcodes, ?_⟩
  · have hnumber : (bareNumberJob.play? (Script.generate 1) {}).map (·.1) =
        some (Blocks.number .microPython (bareNumberJob.node 1)) := by decide +kernel
    rw [hcode] at hnumber
    cases hnumber
    exact ⟨_, _, s₁, hcode, hkeeps hflat⟩
  · have htext : (bareNumberJob.play? (bareNumberJob.slotCode (bareNumberJob.node 0) "LOOP") {}).map
        (·.1) = some "    5\n    time.sleep_ms(250)\n" := by decide +kernel
    rw [hplay] at htext
    cases htext
    exact hpile

end BlockCompiler
