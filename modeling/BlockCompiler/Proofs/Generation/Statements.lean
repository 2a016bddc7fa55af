import BlockCompiler.Proofs.Expression.Rendering
import BlockCompiler.Proofs.Generation.Contract
import BlockCompiler.Proofs.Text.Layout

/-!
# The statements of MicroPython blocks

What a block turns into is laid out by indentation.  Statements make up a block of lines
at the margin (`IsBlock`); an expression is part of a line that neither begins a comment
nor ends in a colon (`Inline`).  `Job.layout` is the contract that says so, and what is
collected for the declarations and the setup is held to the same.

Each generator is looked at once, with the contract assumed for the blocks in its slots.
Where a header is written a body follows it that is not empty: `Job.bodyCode` puts a
filler in its place, and timed repeats and procedures have lines of their own.  The one
statement that can turn into a comment is a loop exit outside of a loop
(`Blocks.obeys_loopExit`).
-/

namespace BlockCompiler

open Text Script

/-! ## Pieces of generated lines -/

/-- The characters of words lie between the digit nought and the small z. -/
theorem isWordChar_bounds {c : Char} (h : isWordChar c = true) : 48 ≤ c.toNat ∧ c.toNat ≤ 122 := by
  rw [isWordChar, Bool.or_eq_true, beq_iff_eq] at h
  rcases h with halnum | rfl
  · rcases Bool.or_eq_true_iff.mp halnum with halpha | hdigit
    · rcases Bool.or_eq_true_iff.mp halpha with hupper | hlower
      · obtain ⟨hlow, hhigh⟩ := of_decide_eq_true hupper
        have hlow' : 65 ≤ c.toNat := UInt32.le_iff_toNat_le.mp hlow
        have hhigh' : c.toNat ≤ 90 := UInt32.le_iff_toNat_le.mp hhigh
        omega
      · obtain ⟨hlow, hhigh⟩ := Bool.and_eq_true_iff.mp hlower
        have hlow' : 97 ≤ c.toNat := UInt32.le_iff_toNat_le.mp (of_decide_eq_true hlow)
        have hhigh' : c.toNat ≤ 122 := UInt32.le_iff_toNat_le.mp (of_decide_eq_true hhigh)
        omega
    · obtain ⟨hlow, hhigh⟩ := Bool.and_eq_true_iff.mp hdigit
      have hlow' : 48 ≤ c.toNat := UInt32.le_iff_toNat_le.mp (of_decide_eq_true hlow)
      have hhigh' : c.toNat ≤ 57 := UInt32.le_iff_toNat_le.mp (of_decide_eq_true hhigh)
      omega
  · decide

/-- No character of a word is blank. -/
theorem isBlank_of_isWordChar {c : Char} (h : isWordChar c = true) : isBlank c = false := by
  have hbounds := isWordChar_bounds h
  simp only [isBlank, Bool.or_eq_false_iff, Bool.and_eq_false_iff, decide_eq_false_iff_not,
    beq_eq_false_iff_ne]
  omega

theorem ne_of_isWordChar {c d : Char} (h : isWordChar c = true) (hd : isWordChar d = false) :
    c ≠ d := by
  rintro rfl
  rw [h] at hd
  cases hd

theorem oneLine_of_isWordChar {s : String} (h : ∀ c ∈ s.toList, isWordChar c = true) : OneLine s :=
  fun hmem => ne_of_isWordChar (h _ hmem) (by decide) rfl

/-- A symbol is made of characters of words, so it breaks no line. -/
theorem oneLine_symbol (s : String) : OneLine (symbol s) := by
  refine oneLine_of_isWordChar fun c hc => ?_
  rw [symbol, String.toList_map] at hc
  obtain ⟨d, -, rfl⟩ := List.mem_map.mp hc
  exact isWordChar_symbolChar d

/-- A word fits into a line: it is not empty, and ends neither in a blank nor in a colon. -/
theorem inline_of_isWord {s : String} (h : isWord s.toList = true) : Inline s := by
  obtain ⟨c, rest, hs, hc, hrest⟩ := Lexicon.isWord_parts h
  have hall : ∀ d ∈ s.toList, isWordChar d = true := by
    rw [hs]
    refine List.forall_mem_cons.mpr ⟨?_, hrest⟩
    rw [isWordChar, Char.isAlphanum, Bool.or_right_comm, hc, Bool.true_or]
  refine ⟨⟨oneLine_of_isWordChar hall, ?_⟩, oneLine_of_isWordChar hall, ?_⟩
  · have hchar := hall c (by simp [hs])
    simp [hs, isBlank_of_isWordChar hchar, ne_of_isWordChar hchar (d := '#') (by decide)]
  · cases hlast : s.toList.getLast? with
    | none => simp [hs] at hlast
    | some d =>
      have hchar := hall d (List.mem_of_getLast? hlast)
      simp [isBlank_of_isWordChar hchar, ne_of_isWordChar hchar (d := ':') (by decide)]

theorem inline_nameField (n : Node) (field fallback : String)
    (h : isWord fallback.toList = true) : Inline (Blocks.nameField n field fallback) :=
  inline_of_isWord (isWord_nameField n field h)

/-- A number is written in one line. -/
theorem oneLine_repr (n : Nat) : OneLine n.repr := by
  intro hmem
  rw [Nat.repr, String.toList_ofList] at hmem
  exact absurd (Nat.isDigit_of_mem_toDigits (by decide) (by decide) hmem) (by decide)

theorem oneLine_render (n : Int) : OneLine (Whole.render n) := by
  rw [Whole.render]
  split
  · exact OneLine.append (by decide) (oneLine_repr _)
  · exact oneLine_repr _

/-- Line feeds in a text are escaped in its literal. -/
theorem inline_literal (s : String) : Inline (Blocks.literal '\'' s) := by
  have hline : OneLine (Blocks.literal '\'' s) := by
    rw [OneLine, Blocks.literal, String.toList_ofList]
    simp only [List.mem_cons, List.mem_append, List.mem_flatMap, not_or, not_exists, not_and]
    refine ⟨by decide, fun c _ => ?_, by decide⟩
    rw [Blocks.literalChar]
    split
    · decide
    · split
      · decide
      · split
        · decide
        · rename_i hfeed
          simpa using fun h => hfeed h.symm
  refine ⟨⟨hline, ?_⟩, hline, ?_⟩
  · rw [Blocks.literal, String.toList_ofList]
    rfl
  · rw [Blocks.literal, String.toList_ofList, ← List.cons_append, List.getLast?_concat]
    decide

theorem inline_parenthesize {text : String} (h : Inline text) (inner outer : Order) :
    Inline (parenthesize text inner outer) := by
  rw [parenthesize]
  split
  · exact (Opening.append (by decide) h.oneLine).inline (by decide)
  · exact h

/-- No field of the block breaks a line. -/
def Node.IsPlain (n : Node) : Prop :=
  ∀ e ∈ n.fields.entries, OneLine e.2

/-- The text of a field of a plain block is one line, and so is what stands in for it. -/
theorem Node.IsPlain.oneLine_fieldOr {n : Node} (h : n.IsPlain) (name fallback : String)
    (hfallback : OneLine fallback) : OneLine (n.fieldOr name fallback) := by
  rw [Node.fieldOr]
  split
  · rename_i text htext
    split
    · exact hfallback
    · exact h (name, text) (Dict.mem_entries_iff.mpr htext)
  · exact hfallback

theorem Node.blank_fieldOr (n : Node) (name fallback : String)
    (hfallback : blank fallback = false) : blank (n.fieldOr name fallback) = false := by
  rw [Node.fieldOr]
  split
  · split
    · exact hfallback
    · rename_i hblank
      exact Bool.eq_false_iff.mpr hblank
  · exact hfallback

/-! ## What the blocks agree on -/

/-- The code is a block of statements. -/
def Code.IsStatements : Code → Prop
  | .statement text => IsBlock 4 text
  | .expression .. => False

/-- The code is an expression that fits into a line. -/
def Code.IsInline : Code → Prop
  | .statement _ => False
  | .expression text _ => Inline text

/-- Blocks turn into blocks of statements, or into expressions unless they may stand at top level;
what is collected are lines, or blocks. -/
def Job.layout (j : Job) : Contract where
  code i c := c.IsStatements ∨ (c.IsInline ∧ j.isPlaced (j.node i).type = false)
  declared text := IsBlock 4 (trimLineFeeds text ++ "\n")
  prepared text := IsBlock 4 (trimLineFeeds text ++ "\n")

/-- A collected line is ended once. -/
theorem isBlock_flushed {text : String} (h : Inline text) :
    IsBlock 4 (trimLineFeeds text ++ "\n") := by
  obtain ⟨c, hlast, hc⟩ : ∃ c, text.toList.getLast? = some c ∧ c ≠ '\n' := by
    cases hlast : text.toList.getLast? with
    | none => simp [Inline, Closing, hlast] at h
    | some c => exact ⟨c, rfl, fun hc => h.oneLine (hc ▸ List.mem_of_getLast? hlast)⟩
  have htrim : trimLineFeeds (text ++ "") = text ++ "" := trimLineFeeds_append hlast hc ""
  rw [String.append_empty] at htrim
  rw [htrim]
  exact isBlock_line h

/-- The lines taken over from a collector. -/
theorem isBlock_flush {c : Collector} (h : ∀ t ∈ c.texts, IsBlock 4 (trimLineFeeds t ++ "\n")) :
    IsBlock 4 c.flush := by
  refine isBlock_join fun t ht => ?_
  obtain ⟨text, htext, rfl⟩ := List.mem_map.mp ht
  exact h text htext

theorem oneLine_suffix (s : String) : OneLine (suffix s) :=
  oneLine_symbol _

section Slots

variable {j : Job} (hb : j.backend = Target.microPython.backend)

/-- A declaration of one line is in order. -/
theorem obeys_declare_line {symbol text : String} (h : Inline text) :
    (Script.declare symbol text).Obeys j.layout fun _ => True :=
  obeys_declare (isBlock_flushed h)

/-- A line of the setup is in order. -/
theorem obeys_setup_line {symbol text : String} (h : Inline text) :
    (Script.setup symbol text).Obeys j.layout fun _ => True :=
  obeys_setup (isBlock_flushed h)

/-- The expression in a value slot fits into a line. -/
theorem obeys_valueCode? (n : Node) (slot : String) (outer : Order) :
    (j.valueCode? n slot outer).Obeys j.layout fun value => ∀ text ∈ value, Inline text :=
  Job.obeys_valueCode?_of (fun _ _ _ hcode => (hcode.resolve_left id).1)
    (fun _ inner outer htext => inline_parenthesize htext inner outer) n slot outer

theorem obeys_valueCode (n : Node) (slot : String) (outer : Order) {fallback : String}
    (hfallback : Inline fallback) : (j.valueCode n slot outer fallback).Obeys j.layout Inline :=
  Job.obeys_valueCode_of hfallback (obeys_valueCode? n slot outer)

include hb

/-- A line of MicroPython has nothing before the line feed that ends it. -/
theorem line_eq (text : String) : j.line text = text ++ "\n" := by
  rw [Job.line, Job.formatting, hb]
  exact congrArg (· ++ "\n") (String.append_empty)

/-- A step of indentation is four spaces. -/
theorem indent_eq (text : String) : j.indent text = indent (spaces 4) text := by
  rw [Job.indent, Job.formatting, hb]
  rfl

/-- A line on its own is a block of statements. -/
theorem isBlock_jobLine {text : String} (h : Inline text) : IsBlock 4 (j.line text) := by
  rw [line_eq hb]
  exact isBlock_line h

/-- A sequence of blocks is a block of statements. -/
theorem obeys_chainCode (head : NodeId) : (j.chainCode head).Obeys j.layout (IsBlock 4) := by
  refine Job.obeys_chainCode_of (fun i code hcode => ?_) (fun _ => isBlock_join) head
  cases code with
  | statement text => exact hcode.resolve_right fun h => h.1
  | expression text order =>
    obtain ⟨htext, -⟩ := hcode.resolve_left id
    rw [Job.statementText]
    split
    · exact isBlock_empty
    · exact isBlock_jobLine hb htext

/-- The statements in a slot are a block that was moved one step further in. -/
theorem obeys_slotCode (n : Node) (slot : String) :
    (j.slotCode n slot).Obeys j.layout fun text =>
      ∃ inner, IsBlock 4 inner ∧ text = indent (spaces 4) inner := by
  unfold Job.slotCode
  cases n.statements.get? slot with
  | none => exact obeys_pure ⟨"", isBlock_empty, rfl⟩
  | some head =>
    refine (obeys_chainCode hb head).result fun text htext => ?_
    exact ⟨text, htext, indent_eq hb text⟩

/-- Where a slot gives nothing, the filler makes the body. -/
theorem isBody_fillBody {inner : String} (h : IsBlock 4 inner) :
    IsBody 4 (j.fillBody (indent (spaces 4) inner)) := by
  have hfill : j.fillBody (indent (spaces 4) inner) =
      if blank (indent (spaces 4) inner) then j.indent (j.line "pass")
      else indent (spaces 4) inner := by
    rw [Job.fillBody, Job.formatting, hb]
    rfl
  rw [hfill]
  split
  · refine ⟨"pass\n", isBlock_line (s := "pass") (by decide), by decide, ?_⟩
    rw [indent_eq hb, line_eq hb]
    rfl
  · rename_i hblank
    refine ⟨inner, h, ?_, rfl⟩
    rintro rfl
    exact hblank rfl

/-- A body has at least one statement, the filler if there is no other. -/
theorem obeys_bodyCode (n : Node) (slot : String) :
    (j.bodyCode n slot).Obeys j.layout (IsBody 4) := by
  refine (obeys_slotCode hb n slot).result fun text htext => ?_
  obtain ⟨inner, hinner, rfl⟩ := htext
  exact isBody_fillBody hb hinner

end Slots

/-! ## Expressions -/

namespace Blocks

variable {j : Job} {n : Node}

theorem isInline_boolean (n : Node) : (boolean .microPython n).IsInline := by
  rw [boolean]
  cases n.flag "BOOL" true
  · show Inline "False"
    decide
  · show Inline "True"
    decide

/-- The operands of an operator and its sign fit into a line together. -/
theorem obeys_binary {sign fallback : String} (order : Order) (hsign : OneLine sign)
    (hfallback : Inline fallback) :
    (binary j n sign order fallback).Obeys j.layout Code.IsInline := by
  refine (obeys_valueCode n "A" order hfallback).bind fun a ha => ?_
  refine (obeys_valueCode n "B" order hfallback).result fun b hb => ?_
  have hfront := ((ha.1.append (b := " ") (by decide)).append hsign).append (b := " ") (by decide)
  exact hfront.inline hb.2

theorem obeys_arithmetic : (arithmetic .microPython j n).Obeys j.layout Code.IsInline := by
  have happly : ∀ op, (applyArithmetic .microPython j n op).Obeys j.layout Code.IsInline := by
    intro op
    have hsign : OneLine op.sign := by cases op <;> decide
    have hbinary : applyArithmetic .microPython j n op =
        binary j n op.sign (Target.microPython.order op.binding) "0" := by
      cases op <;> rfl
    rw [hbinary]
    exact obeys_binary _ hsign (by decide)
  simp only [arithmetic]
  split
  · exact happly _
  · exact (obeys_notice _).bind fun _ _ => happly _

theorem obeys_comparison : (comparison .microPython j n).Obeys j.layout Code.IsInline := by
  have hsign : ∀ op : ComparisonOp, OneLine op.sign := by
    intro op
    cases op <;> decide
  exact obeys_binary _ (hsign _) (by decide)

theorem obeys_logic : (logic .microPython j n).Obeys j.layout Code.IsInline := by
  have hsign : ∀ op : LogicOp, OneLine (op.sign .microPython) := by
    intro op
    cases op <;> decide
  exact obeys_binary _ (hsign _) (by decide)

theorem obeys_negation : (negation .microPython j n).Obeys j.layout Code.IsInline := by
  refine (obeys_valueCode n "BOOL" _ (by decide)).result fun operand hoperand => ?_
  exact Opening.inline (a := "not ") (by decide) hoperand.2

/-- The name of a function and its arguments fit into a line together. -/
theorem obeys_call : (call .microPython j n).Obeys j.layout Inline := by
  refine (Obeys.mapM (q := Inline) fun i _ => obeys_valueCode n _ _ (by decide)).result
    fun args hargs => ?_
  have hname := (inline_nameField n "NAME" "do_something" (by decide)).1
  have hlist : OneLine (", ".intercalate args) :=
    oneLine_intercalate (by decide) args fun t ht => (hargs t ht).oneLine
  exact ((hname.append (by decide)).append hlist).inline (by decide)

theorem obeys_importPin : importPin.Obeys j.layout fun _ => True :=
  obeys_declare_line (by decide)

theorem obeys_importPwm : importPwm.Obeys j.layout fun _ => True :=
  obeys_declare_line (by decide)

theorem obeys_importTime : importTime.Obeys j.layout fun _ => True :=
  obeys_declare_line (by decide)

theorem obeys_milliseconds : (milliseconds .microPython).Obeys j.layout Code.IsInline :=
  obeys_importTime.result fun _ _ => show Inline "time.ticks_ms()" by decide

/-- The name of an object for a pin. -/
theorem opening_pinName (start : String) (h : Opening start) (pin : String) :
    Opening (start ++ suffix pin) :=
  h.append (oneLine_suffix pin)

/-! ## Statements of one line -/

theorem obeys_digitalRead (hn : n.IsPlain) :
    (digitalRead .microPython n).Obeys j.layout Code.IsInline := by
  have hpin := hn.oneLine_fieldOr "PIN" "0" (by decide)
  have hname := opening_pinName "pin_in_" (by decide) (n.fieldOr "PIN" "0")
  refine obeys_importPin.bind fun _ _ => ?_
  refine (obeys_declare_line ?_).result fun _ _ => ?_
  · exact ((hname.append (by decide)).append hpin).inline (by decide)
  · exact hname.inline (by decide)

theorem obeys_analogRead (hn : n.IsPlain) :
    (analogRead .microPython n).Obeys j.layout Code.IsInline := by
  have hpin := hn.oneLine_fieldOr "PIN" "34" (by decide)
  have hname := opening_pinName "adc_" (by decide) (n.fieldOr "PIN" "34")
  refine obeys_importPin.bind fun _ _ => ?_
  refine (obeys_declare_line (by decide)).bind fun _ _ => ?_
  refine (obeys_declare_line ?_).result fun _ _ => ?_
  · exact ((hname.append (by decide)).append hpin).inline (by decide)
  · exact hname.inline (by decide)

theorem obeys_serialSetup (hn : n.IsPlain) :
    (serialSetup .microPython n).Obeys j.layout Code.IsStatements := by
  have hbaud := hn.oneLine_fieldOr "BAUD" "115200" (by decide)
  refine (obeys_declare_line (by decide)).bind fun _ _ => ?_
  refine (obeys_setup_line ?_).result fun _ _ => isBlock_empty
  exact (Opening.append (by decide) hbaud).inline (by decide)

/-- A servo is set up by one line; the block itself turns into nothing. -/
theorem obeys_servoAttach (hn : n.IsPlain) :
    (servoAttach .microPython n).Obeys j.layout Code.IsStatements := by
  have hpin := hn.oneLine_fieldOr "PIN" "15" (by decide)
  have hname := (inline_nameField n "NAME" "servo" (by decide)).1
  refine obeys_importPin.bind fun _ _ => obeys_importPwm.bind fun _ _ => ?_
  refine (obeys_setup_line ?_).result fun _ _ => isBlock_empty
  exact ((hname.append (by decide)).append hpin).inline (by decide)

/-- The trigger of an interrupt is one line, also where it is made of two constants. -/
theorem obeys_interruptTrigger :
    (interruptTrigger .microPython n).Obeys j.layout OneLine := by
  have hknown : ∀ mode trigger, interruptTrigger? .microPython mode = some trigger →
      OneLine trigger := by
    intro mode trigger h
    unfold interruptTrigger? at h
    split at h <;> cases h <;> decide
  simp only [interruptTrigger]
  split
  · rename_i trigger htrigger
    exact obeys_pure (hknown _ trigger htrigger)
  · exact (obeys_notice _).result fun _ _ => show OneLine "Pin.IRQ_RISING" by decide

/-- The handler of an interrupt is set up by one line; the block itself turns into nothing. -/
theorem obeys_interruptAttach (hn : n.IsPlain) :
    (interruptAttach .microPython n).Obeys j.layout Code.IsStatements := by
  have hpin := hn.oneLine_fieldOr "PIN" "2" (by decide)
  have hhandler := (inline_nameField n "HANDLER" "on_interrupt" (by decide)).oneLine
  have hname := opening_pinName "pin_irq_" (by decide) (n.fieldOr "PIN" "2")
  refine obeys_interruptTrigger.bind fun trigger htrigger => ?_
  refine obeys_importPin.bind fun _ _ => ?_
  refine (obeys_setup_line ?_).bind fun _ _ => ?_
  · exact ((hname.append (by decide)).append hpin).inline (by decide)
  · refine (obeys_setup_line ?_).result fun _ _ => isBlock_empty
    have hfront := ((hname.append (b := ".irq(trigger=") (by decide)).append htrigger).append
      (b := ", handler=lambda p: ") (by decide)
    exact (hfront.append hhandler).inline (by decide)

/-- The one declaration that is longer than a line. -/
theorem isBlock_servoAngle : IsBlock 4 (trimLineFeeds
    "def servo_angle(servo, degrees):\n    servo.duty(int(40 + degrees * 75 / 180))" ++ "\n") := by
  have hlines : trimLineFeeds
      "def servo_angle(servo, degrees):\n    servo.duty(int(40 + degrees * 75 / 180))" ++ "\n" =
      "def servo_angle(servo, degrees)" ++ ":\n" ++
        indent (spaces 4) ("servo.duty(int(40 + degrees * 75 / 180))" ++ "\n") := by
    decide +kernel
  rw [hlines]
  exact isBlock_header (by decide) (by decide) ⟨_, isBlock_line (by decide), by decide, rfl⟩

variable (hb : j.backend = Target.microPython.backend)

include hb

theorem obeys_digitalWrite (hn : n.IsPlain) :
    (digitalWrite .microPython j n).Obeys j.layout Code.IsStatements := by
  have hpin := hn.oneLine_fieldOr "PIN" "2" (by decide)
  have hname := opening_pinName "pin_out_" (by decide) (n.fieldOr "PIN" "2")
  refine obeys_importPin.bind fun _ _ => ?_
  refine (obeys_declare_line ?_).bind fun _ _ => ?_
  · exact ((hname.append (by decide)).append hpin).inline (by decide)
  · refine (obeys_valueCode n "STATE" _ (by decide)).result fun state hstate => ?_
    exact isBlock_jobLine hb (((hname.append (by decide)).append hstate.oneLine).inline (by decide))

theorem obeys_analogWrite (hn : n.IsPlain) :
    (analogWrite .microPython j n).Obeys j.layout Code.IsStatements := by
  have hpin := hn.oneLine_fieldOr "PIN" "4" (by decide)
  have hname := opening_pinName "pwm_" (by decide) (n.fieldOr "PIN" "4")
  refine obeys_importPin.bind fun _ _ => obeys_importPwm.bind fun _ _ => ?_
  refine (obeys_declare_line ?_).bind fun _ _ => ?_
  · exact ((hname.append (by decide)).append hpin).inline (by decide)
  · refine (obeys_valueCode n "NUM" _ (by decide)).result fun value hvalue => ?_
    exact isBlock_jobLine hb (((hname.append (by decide)).append hvalue.oneLine).inline (by decide))

theorem obeys_delay : (delay .microPython j n).Obeys j.layout Code.IsStatements := by
  refine obeys_importTime.bind fun _ _ => ?_
  refine (obeys_valueCode n "DELAY_TIME" _ (by decide)).result fun time htime => ?_
  exact isBlock_jobLine hb ((Opening.append (by decide) htime.oneLine).inline (by decide))

theorem obeys_serialPrint : (serialPrint .microPython j n).Obeys j.layout Code.IsStatements := by
  refine (obeys_valueCode n "CONTENT" _ (by decide)).result fun content hcontent => ?_
  have hending : OneLine (if n.flag "NEWLINE" true then "" else ", end=''") := by
    split <;> decide
  have hfront := (Opening.append (a := "print(") (by decide) hcontent.oneLine).append hending
  exact isBlock_jobLine hb (hfront.inline (by decide))

theorem obeys_servoWrite : (servoWrite .microPython j n).Obeys j.layout Code.IsStatements := by
  have hname := (inline_nameField n "NAME" "servo" (by decide)).oneLine
  refine (obeys_declare isBlock_servoAngle).bind fun _ _ => ?_
  refine (obeys_valueCode n "DEGREE" _ (by decide)).result fun degrees hdegrees => ?_
  have hfront := ((Opening.append (a := "servo_angle(") (by decide) hname).append (b := ", ")
    (by decide)).append hdegrees.oneLine
  exact isBlock_jobLine hb (hfront.inline (by decide))

theorem obeys_assignment : (assignment .microPython j n).Obeys j.layout Code.IsStatements := by
  have hvar := (inline_nameField n "VAR" "item" (by decide)).1
  refine (obeys_declare_line (hvar.inline (by decide))).bind fun _ _ => ?_
  refine (obeys_valueCode n "VALUE" _ (by decide)).result fun value hvalue => ?_
  exact isBlock_jobLine hb ((hvar.append (by decide)).inline hvalue.2)

theorem obeys_callStatement : (callStatement .microPython j n).Obeys j.layout Code.IsStatements :=
  obeys_call.result fun _ htext => isBlock_jobLine hb htext

/-- A return is one line, with or without a value. -/
theorem obeys_returnStatement : (returnStatement j n).Obeys j.layout Code.IsStatements := by
  refine (obeys_valueCode? n "VALUE" _).bind fun value hvalue => ?_
  cases value with
  | none =>
    have hline : Inline "return" := by decide
    exact obeys_pure (isBlock_jobLine hb hline)
  | some text =>
    exact obeys_pure (isBlock_jobLine hb (Opening.inline (by decide) (hvalue text rfl).2))

/-- Leaving a loop is a statement; the comment that may stand for it is none. -/
theorem obeys_loopExit {i : NodeId} (hloop : j.standsInLoop i = true) :
    (loopExit j i n).Obeys j.layout Code.IsStatements := by
  simp only [loopExit, hloop, if_true]
  refine obeys_pure (isBlock_jobLine hb ?_)
  split <;> decide

/-! ## Statements with a body -/

/-- A branch of a conditional is a header with its body below. -/
theorem obeys_colonBranch (k : Nat) : (colonBranch j n k).Obeys j.layout (IsBlock 4) := by
  refine (obeys_valueCode n _ _ (by decide)).bind fun condition hcondition => ?_
  refine (obeys_bodyCode hb n _).result fun body hbody => ?_
  have hkeyword : Opening (if k = 0 then "if" else "elif") := by
    split <;> decide
  exact isBlock_header ((hkeyword.append (by decide)).append hcondition.oneLine) (by decide) hbody

/-- The last branch has a header and a body too, or is left out. -/
theorem obeys_colonOtherwise : (colonOtherwise j n).Obeys j.layout (IsBlock 4) := by
  unfold colonOtherwise
  split
  · refine (obeys_bodyCode hb n _).result fun body hbody => ?_
    have hblock : IsBlock 4 ("else" ++ ":\n" ++ body) :=
      isBlock_header (by decide) (by decide) hbody
    exact hblock
  · exact obeys_pure isBlock_empty

/-- The branches of a conditional, put together, are a block of statements. -/
theorem obeys_conditional : (conditional .microPython j n).Obeys j.layout Code.IsStatements := by
  refine (Obeys.mapM (q := IsBlock 4) fun k _ => obeys_colonBranch hb k).bind
    fun branches hbranches => ?_
  refine (obeys_colonOtherwise hb).result fun otherwise hotherwise => ?_
  exact (isBlock_join hbranches).append hotherwise

theorem obeys_repeatLoop : (repeatLoop .microPython j n).Obeys j.layout Code.IsStatements := by
  refine (obeys_valueCode n "TIMES" _ (by decide)).bind fun times htimes => ?_
  refine (obeys_bodyCode hb n "DO").result fun body hbody => ?_
  have hcounter : OneLine ("count_" ++ n.symbolSuffix) :=
    OneLine.append (by decide) (oneLine_symbol _)
  have hfront := (Opening.append (a := "for ") (by decide) hcounter).append (b := " in range(")
    (by decide)
  exact isBlock_header (hfront.append htimes.oneLine) (by decide) hbody

theorem obeys_conditionLoop : (conditionLoop .microPython j n).Obeys j.layout Code.IsStatements := by
  have hcondition : (loopCondition .microPython j n).Obeys j.layout OneLine := by
    unfold loopCondition
    split
    · refine (obeys_valueCode n "BOOL" _ (by decide)).result fun value hvalue => ?_
      exact OneLine.append (a := "not ") (by decide) hvalue.oneLine
    · exact (obeys_valueCode n "BOOL" _ (by decide)).mono fun _ h => h.oneLine
  refine hcondition.bind fun condition hcondition => ?_
  refine (obeys_bodyCode hb n "DO").result fun body hbody => ?_
  exact isBlock_header (Opening.append (by decide) hcondition) (by decide) hbody

omit hb in
/-- A bound stays on its line when it is moved by one. -/
theorem oneLine_movedBound {bound : String} (h : OneLine bound) (up : Bool) :
    OneLine (movedBound bound up) := by
  unfold movedBound
  extract_lets delta
  generalize Option.filter Whole.inSignedRange _ = moved
  cases moved with
  | some n => exact oneLine_render n
  | none =>
    cases up with
    | true => exact h.append (b := " + 1") (by decide)
    | false => exact h.append (b := " - 1") (by decide)

omit hb in
theorem oneLine_countingRange {start last step : String} (hstart : OneLine start)
    (hlast : OneLine last) (hstep : OneLine step) : OneLine (countingRange start last step) := by
  have hfront : OneLine ("range(" ++ start ++ ", ") :=
    (OneLine.append (by decide) hstart).append (by decide)
  have hmoved := fun up => hfront.append (oneLine_movedBound hlast up)
  rw [countingRange]
  split
  · exact (hmoved true).append (by decide)
  · split
    · exact ((((hmoved _).append (by decide)).append hstep).append (by decide))
    · have htest := (((hmoved true).append (b := " if ") (by decide)).append hstep).append
        (b := " > 0 else ") (by decide)
      have hboth := (htest.append (oneLine_movedBound hlast false)).append (b := ", ") (by decide)
      exact (hboth.append hstep).append (by decide)

/-- A counting loop is a header over its range, with its body below. -/
theorem obeys_countingLoop : (countingLoop .microPython j n).Obeys j.layout Code.IsStatements := by
  have hvar := (inline_nameField n "VAR" "i" (by decide)).1
  refine (obeys_declare_line (hvar.inline (by decide))).bind fun _ _ => ?_
  refine (obeys_valueCode n "FROM" _ (by decide)).bind fun start hstart => ?_
  refine (obeys_valueCode n "TO" _ (by decide)).bind fun last hlast => ?_
  refine (obeys_valueCode n "BY" _ (by decide)).bind fun step hstep => ?_
  refine (obeys_bodyCode hb n "DO").result fun body hbody => ?_
  have hrange := oneLine_countingRange hstart.oneLine hlast.oneLine hstep.oneLine
  have hfront := (Opening.append (a := "for ") (by decide) hvar.1).append (b := " in ") (by decide)
  exact isBlock_header (hfront.append hrange) (by decide) hbody

/-- A timed repeat is a header for the comparison of times, with its body below, in which the time
is taken first. -/
theorem obeys_timedRepeat : (timedRepeat .microPython j n).Obeys j.layout Code.IsStatements := by
  have hstate : Opening (timerState n) :=
    (Opening.append (by decide) (oneLine_symbol _)).append (by decide)
  refine obeys_importTime.bind fun _ _ => ?_
  refine (obeys_declare_line (hstate.inline (by decide))).bind fun _ _ => ?_
  refine (obeys_valueCode n "INTERVAL" _ (by decide)).bind fun interval hinterval => ?_
  refine (obeys_slotCode hb n "DO").result fun body hbody => ?_
  obtain ⟨inner, hinner, rfl⟩ := hbody
  have hfront := (Opening.append (a := "if time.ticks_diff(time.ticks_ms(), ") (by decide)
    hstate.1).append (b := ") >= ") (by decide)
  have hstart : IsBlock 4 (timerState n ++ " = time.ticks_ms()\n") := by
    have hline := hstate.inline (b := " = time.ticks_ms()") (by decide)
    have hregroup : timerState n ++ " = time.ticks_ms()" ++ "\n" =
      timerState n ++ " = time.ticks_ms()\n" := String.append_assoc
    rw [← hregroup]
    exact isBlock_line hline
  rw [indent_eq hb]
  refine isBlock_header_append (hfront.append hinterval.oneLine) (by decide) ?_
  refine isBody_append hstart hinner fun hempty => ?_
  simp [String.append_eq_empty_iff] at hempty

/-- The return at the end of a procedure is a line of its body. -/
theorem obeys_returnLine : (returnLine j n).Obeys j.layout fun text =>
    ∃ inner, IsBlock 4 inner ∧ text = indent (spaces 4) inner := by
  unfold returnLine
  split
  · refine (obeys_valueCode? n "RETURN" _).bind fun value hvalue => ?_
    cases value with
    | none => exact obeys_pure ⟨"", isBlock_empty, rfl⟩
    | some text =>
      refine obeys_pure ⟨_, isBlock_jobLine hb ?_, indent_eq hb _⟩
      exact Opening.inline (a := "return ") (by decide) (hvalue text rfl).2
  · exact obeys_pure ⟨"", isBlock_empty, rfl⟩

omit hb in
/-- Names of a list are words, so they break no line. -/
theorem oneLine_of_mem_nameList {raw fallback name : String}
    (hfallback : isWord fallback.toList = true) (h : name ∈ nameList raw fallback) :
    OneLine name := by
  obtain ⟨piece, -, rfl⟩ := List.mem_map.mp h
  exact (inline_of_isWord (isWord_identifier piece hfallback)).oneLine

omit hb in
/-- Names of globals can end a line. -/
theorem closing_of_mem_assignedGlobals {i : NodeId} {params : List String} {name : String}
    (h : name ∈ assignedGlobals j i params) : Closing name := by
  have hnames := (List.mem_filter.mp h).1
  obtain ⟨⟨key, value⟩, hentry, rfl⟩ := List.mem_map.mp hnames
  have hmem := Dict.mem_of_get?_ofList (Dict.mem_entries_iff.mp hentry)
  obtain ⟨assigned, hassigned, heq⟩ := List.mem_map.mp hmem
  obtain ⟨d, -, hname⟩ := List.mem_filterMap.mp hassigned
  cases heq
  unfold assignedName? at hname
  split at hname
  · cases hname
    exact (inline_nameField _ "VAR" "item" (by decide)).2
  · cases hname
    exact (inline_nameField _ "VAR" "i" (by decide)).2
  · cases hname
    exact Closing.append (OneLine.append (by decide) (oneLine_symbol _)) (by decide)
  · cases hname

/-- The line for globals is the first line of a body, if there are any. -/
theorem exists_globalLine (names : List String) (h : ∀ name ∈ names, Closing name) :
    ∃ inner, IsBlock 4 inner ∧ globalLine j names = indent (spaces 4) inner := by
  rw [globalLine]
  split
  · exact ⟨"", isBlock_empty, rfl⟩
  · rename_i hne
    have hnames : Closing (", ".intercalate names) :=
      closing_intercalate (by decide) (fun hnil => hne (List.isEmpty_iff.mpr hnil)) h
    exact ⟨_, isBlock_line (Opening.inline (by decide) hnames), indent_eq hb _⟩

/-- The statements of a procedure, with the filler where there are none. -/
theorem exists_procedureBody {inner last : String} (hinner : IsBlock 4 inner)
    (hlast : IsBlock 4 last) :
    ∃ body, IsBlock 4 body ∧ body ≠ "" ∧
      (if blank (indent (spaces 4) inner) && (indent (spaces 4) last).isEmpty then
        j.indent "pass\n" else indent (spaces 4) inner ++ indent (spaces 4) last) =
      indent (spaces 4) body := by
  split
  · exact ⟨"pass\n", isBlock_line (s := "pass") (by decide), by decide, indent_eq hb _⟩
  · rename_i hsome
    refine ⟨inner ++ last, hinner.append hlast, fun hempty => ?_, ?_⟩
    · rw [String.append_eq_empty_iff] at hempty
      obtain ⟨rfl, rfl⟩ := hempty
      exact hsome rfl
    · exact (indent_append _ hinner.whole last).symm

/-- A procedure is a header with its body below: globals, statements and the return. -/
theorem obeys_procedure (i : NodeId) :
    (procedure .microPython j i n).Obeys j.layout Code.IsStatements := by
  refine (obeys_slotCode hb n "STACK").bind fun stack hstack => ?_
  refine (obeys_returnLine hb).result fun returned hreturned => ?_
  obtain ⟨inner, hinner, rfl⟩ := hstack
  obtain ⟨last, hlast, rfl⟩ := hreturned
  obtain ⟨globals, hglobals, hfront⟩ :=
    exists_globalLine hb (assignedGlobals j i (parameters n)) fun _ => closing_of_mem_assignedGlobals
  obtain ⟨body, hbody, hne, hback⟩ := exists_procedureBody hb hinner hlast
  have hname := (inline_nameField n "NAME" "do_something" (by decide)).oneLine
  have hparams : OneLine (", ".intercalate (parameters n)) :=
    oneLine_intercalate (by decide) _ fun name => oneLine_of_mem_nameList (by decide)
  have hheader := ((Opening.append (a := "def ") (by decide) hname).append (b := "(")
    (by decide)).append hparams
  simp only [hfront, hback]
  refine isBlock_header_append hheader (by decide) ?_
  refine isBody_append hglobals hbody fun hempty => ?_
  exact hne (String.append_eq_empty_iff.mp hempty).2

omit hb in
/-- The part of a program that the lines of the setup and the loop make up. -/
theorem isBlock_program {opening loop : String} (hopening : IsBlock 4 opening)
    (hloop : IsBody 4 loop) :
    IsBlock 4 (opening ++ (if opening.isEmpty then "" else "\n") ++ "while True:\n" ++ loop) := by
  have hfront : IsBlock 4 (opening ++ if opening.isEmpty then "" else "\n") := by
    split
    · rw [String.append_empty]
      exact hopening
    · rename_i hne
      exact hopening.lineFeed fun hempty => hne (String.isEmpty_iff.mpr hempty)
  have hwhile : IsBlock 4 ("while True" ++ ":\n" ++ loop) :=
    isBlock_header (by decide) (by decide) hloop
  exact hfront.append_append hwhile

/-- An entry point is the lines of the setup, what its slots hold, and a loop without end. -/
theorem obeys_entry : (entry .microPython j n).Obeys j.layout Code.IsStatements := by
  have hrest : ∀ setup, IsBlock 4 setup → (do
      let loop ← j.bodyCode n "LOOP"
      let lines ← Script.setupLines
      let opening := lines ++ setup
      return .statement
        (opening ++ (if opening.isEmpty then "" else "\n") ++ "while True:\n" ++ loop) :
          Script Code).Obeys j.layout Code.IsStatements := by
    intro setup hsetup
    refine (obeys_bodyCode hb n "LOOP").bind fun loop hloop => ?_
    refine obeys_setupLines.result fun lines hlines => ?_
    obtain ⟨c, hc, rfl⟩ := hlines
    exact isBlock_program ((isBlock_flush hc).append hsetup) hloop
  refine (obeys_enterProgram _).bind fun _ _ => Job.obeys_alwaysEmittedPass.bind fun _ _ => ?_
  dsimp only
  cases n.statements.get? "SETUP" with
  | some head => exact (obeys_chainCode hb head).bind hrest
  | none => exact hrest "" isBlock_empty

end Blocks

end BlockCompiler
