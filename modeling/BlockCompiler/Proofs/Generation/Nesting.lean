import BlockCompiler.Proofs.Generation.Indentation
import BlockCompiler.Proofs.Text.Nesting

/-!
# The brackets of Arduino sources

Every block turns into text that closes what it opens, and so does every declaration and every
line of the setup (`Nesting.contract`).  Each generator is looked at once, with this assumed
for the blocks in its slots; the literal pieces of its text say which brackets are open between
them.

What a program's author writes goes into the source in four ways.  Names and keys are made of
word characters.  Texts become literals, in which quotes, backslashes and line feeds are escaped.
The types of orphans stand in comments, line by line.  Four fields are taken as they are, and are
asked to consist of letters, digits and a few signs (`Nesting.HasFitFields`).  So the source of
every program with such fields is well nested (`Job.source_wellNested`).
-/

namespace BlockCompiler.Nesting

open Text Script

/-! ## What authors write -/

/-- The fields whose texts stand in the source as they are. -/
def rawFields : List String :=
  ["PIN", "BAUD", "TYPE", "NUM"]

/-- A letter, a digit or one of a few signs. -/
def isFieldChar (c : Char) : Bool :=
  c.isAlphanum || c == '_' || c == '.' || c == '+' || c == '-' || c == ' '

/-- The fields that stand in the source as they are consist of letters, digits and a few signs. -/
def HasFitFields (n : Node) : Prop :=
  ∀ field ∈ rawFields, ∀ text ∈ n.fields.get? field, text.toList.all isFieldChar = true

instance (n : Node) : Decidable (HasFitFields n) :=
  inferInstanceAs (Decidable (∀ field ∈ _, _))

theorem inert_of_all {text : String} (h : text.toList.all isFieldChar = true) : Inert text :=
  fun c hc => isInert_of_class (List.all_eq_true.mp h c hc) (by decide)

/-- A field whose text stands in the source as it is neither opens nor closes anything. -/
theorem HasFitFields.inert_fieldOr {n : Node} (h : HasFitFields n) (field fallback : String)
    (hfield : field ∈ rawFields) (hfallback : Inert fallback) :
    Inert (n.fieldOr field fallback) := by
  rw [Node.fieldOr]
  split
  · rename_i text htext
    split
    · exact hfallback
    · exact inert_of_all (h field hfield text htext)
  · exact hfallback

theorem HasFitFields.neutral_fieldOr {n : Node} (h : HasFitFields n) (field fallback : String)
    (hfield : field ∈ rawFields) (hfallback : Inert fallback) :
    Neutral (n.fieldOr field fallback) :=
  (h.inert_fieldOr field fallback hfield hfallback).neutral

/-- The characters of words open and close nothing. -/
theorem inert_of_isWordChar {text : String} (h : ∀ c ∈ text.toList, isWordChar c = true) :
    Inert text :=
  fun c hc => isInert_of_class (h c hc) (by decide)

theorem inert_of_isWord {text : String} (h : isWord text.toList = true) : Inert text := by
  obtain ⟨c, rest, htext, hc, hrest⟩ := Lexicon.isWord_parts h
  refine inert_of_isWordChar ?_
  rw [htext]
  refine List.forall_mem_cons.mpr ⟨?_, hrest⟩
  rw [isWordChar, Char.isAlphanum, Bool.or_right_comm, hc, Bool.true_or]

theorem neutral_nameField (n : Node) (field : String) {fallback : String}
    (h : isWord fallback.toList = true) : Neutral (Blocks.nameField n field fallback) :=
  (inert_of_isWord (isWord_nameField n field h)).neutral

theorem neutral_symbol (text : String) : Neutral (symbol text) := by
  refine (inert_of_isWordChar fun c hc => ?_).neutral
  rw [symbol, String.toList_map] at hc
  obtain ⟨d, -, rfl⟩ := List.mem_map.mp hc
  exact isWordChar_symbolChar d

/-- Part of a text that opens and closes nothing is such a text too. -/
theorem Inert.trim {text : String} (h : Inert text) : Inert (trim text) := by
  intro c hc
  rw [toList_trim] at hc
  exact h c ((List.dropWhile_sublist _).subset (mem_of_mem_dropEndWhile hc))

/-- The characters of a literal keep a scan in the literal. -/
theorem scan_literalChar (opened : List Char) (c : Char) :
    scan ⟨.literal, opened⟩ (Blocks.literalChar '"' c) = some ⟨.literal, opened⟩ := by
  unfold Blocks.literalChar
  by_cases hback : c = '\\'
  · rw [if_pos hback]
    rfl
  by_cases hquote : c = '"'
  · rw [if_neg hback, if_pos hquote]
    rfl
  by_cases hfeed : c = '\n'
  · rw [if_neg hback, if_neg hquote, if_pos hfeed]
    rfl
  · rw [if_neg hback, if_neg hquote, if_neg hfeed, scan_cons, advance, if_neg hfeed,
      if_neg hquote, if_neg hback]
    rfl

/-- A literal is opened by its first quote and closed by its last; those between are escaped. -/
theorem neutral_literal (text : String) : Neutral (Blocks.literal '"' text) := by
  have hinside : ∀ cs : List Char, scan ⟨.literal, []⟩ (cs.flatMap (Blocks.literalChar '"')) =
      some ⟨.literal, []⟩ := by
    intro cs
    induction cs with
    | nil => rfl
    | cons c rest ih =>
      rw [List.flatMap_cons, scan_append, scan_literalChar]
      exact ih
  show scan _ _ = _
  rw [Blocks.literal, String.toList_ofList, scan_cons]
  show scan ⟨.literal, []⟩ _ = _
  rw [scan_append, hinside]
  rfl

/-- Parentheses come in pairs. -/
theorem neutral_parenthesize {text : String} (h : Neutral text) (inner outer : Order) :
    Neutral (parenthesize text inner outer) := by
  rw [parenthesize]
  split
  · have hopen : Carries [] "(" ['('] := by decide
    exact (hopen.neutral h).append (by decide)
  · exact h

/-! ## What the blocks agree on -/

/-- The code closes what it opens. -/
def NeutralCode (c : Code) : Prop :=
  Neutral c.text

/-- The code of blocks and all texts that are collected close what they open. -/
def contract : Contract where
  code _ := NeutralCode
  declared := Neutral
  prepared := Neutral

/-- Declarations that close what they open can be put one below the other. -/
theorem neutral_flush {c : Collector} (h : ∀ t ∈ c.texts, Neutral t) : Neutral c.flush := by
  refine neutral_join fun t ht => ?_
  obtain ⟨text, htext, rfl⟩ := List.mem_map.mp ht
  exact (h text htext).trimLineFeeds

section Slots

variable {j : Job} (hb : j.backend = Target.arduino.backend)

/-- An expression in a slot closes what it opens. -/
theorem obeys_valueCode? (n : Node) (slot : String) (outer : Order) :
    (j.valueCode? n slot outer).Obeys contract fun value => ∀ text ∈ value, Neutral text :=
  Job.obeys_valueCode?_of (P := Neutral) (fun _ _ _ hcode => hcode)
    (fun _ inner outer htext => neutral_parenthesize htext inner outer) n slot outer

theorem obeys_valueCode (n : Node) (slot : String) (outer : Order) {fallback : String}
    (hfallback : Neutral fallback) : (j.valueCode n slot outer fallback).Obeys contract Neutral :=
  Job.obeys_valueCode_of hfallback (obeys_valueCode? n slot outer)

include hb

/-- The mark at the end of a line opens nothing. -/
theorem neutral_line {text : String} (h : Neutral text) : Neutral (j.line text) := by
  have hline : j.line text = text ++ ";" ++ "\n" := by
    rw [Job.line, Job.formatting, hb]
    rfl
  rw [hline]
  exact (Carries.neutral h (by decide)).neutral (by decide)

/-- Moving lines further in puts spaces where a line begins, which open nothing. -/
theorem neutral_indent {text : String} (h : Neutral text) : Neutral (j.indent text) := by
  have hindent : j.indent text = indent "  " text := by
    rw [Job.indent, Job.formatting, hb]
    rfl
  rw [hindent]
  exact h.indent (by decide)

/-- A comment is closed by the end of its last line, whatever its text is. -/
theorem neutral_jobComment (text : String) : Neutral (j.comment text) := by
  rw [Job.comment, Job.formatting, hb]
  exact neutral_comment text

/-- The blocks of a sequence close what they open one by one. -/
theorem obeys_chainCode (head : NodeId) : (j.chainCode head).Obeys contract Neutral := by
  refine Job.obeys_chainCode_of (fun i code hcode => ?_) (fun _ => neutral_join) head
  cases code with
  | statement text => exact hcode
  | expression text order =>
    rw [Job.statementText]
    split
    · exact neutral_empty
    · exact neutral_line hb hcode

theorem obeys_slotCode (n : Node) (slot : String) :
    (j.slotCode n slot).Obeys contract Neutral := by
  unfold Job.slotCode
  cases n.statements.get? slot with
  | none => exact obeys_pure neutral_empty
  | some head => exact (obeys_chainCode hb head).result fun text htext => neutral_indent hb htext

end Slots

/-! ## Expressions -/

section Expressions

variable {j : Job} {n : Node}

theorem neutralCode_boolean (n : Node) : NeutralCode (Blocks.boolean .arduino n) := by
  rw [Blocks.boolean]
  cases n.flag "BOOL" true
  · show Neutral "false"
    decide
  · show Neutral "true"
    decide

/-- A slash between spaces begins no comment. -/
theorem obeys_binary {sign fallback : String} (order : Order) (hsign : Neutral (" " ++ sign ++ " "))
    (hfallback : Neutral fallback) :
    (Blocks.binary j n sign order fallback).Obeys contract NeutralCode := by
  refine (obeys_valueCode n "A" order hfallback).bind fun a ha => ?_
  refine (obeys_valueCode n "B" order hfallback).result fun b hb => ?_
  have hregroup : a ++ " " ++ sign ++ " " ++ b = a ++ (" " ++ sign ++ " ") ++ b := by
    simp only [String.append_assoc]
  show Neutral (a ++ " " ++ sign ++ " " ++ b)
  rw [hregroup]
  exact (Carries.neutral ha hsign).neutral hb

/-- A power is a call, with its parentheses. -/
theorem obeys_powerCall : (Blocks.powerCall .arduino j n).Obeys contract NeutralCode := by
  refine (obeys_valueCode n "A" _ (by decide)).bind fun a ha => ?_
  refine (obeys_valueCode n "B" _ (by decide)).result fun b hb => ?_
  have hopen : Carries [] "pow(" ['('] := by decide
  have hargs := ((hopen.neutral ha).neutral (t := ", ") (by decide)).neutral hb
  exact hargs.append (t := ")") (by decide)

theorem obeys_arithmetic : (Blocks.arithmetic .arduino j n).Obeys contract NeutralCode := by
  have happly : ∀ op, (Blocks.applyArithmetic .arduino j n op).Obeys contract NeutralCode := by
    intro op
    cases op with
    | power => exact obeys_powerCall
    | add | subtract | multiply | divide => exact obeys_binary _ (by decide) (by decide)
  simp only [Blocks.arithmetic]
  split
  · exact happly _
  · exact (obeys_notice _).bind fun _ _ => happly _

theorem obeys_comparison : (Blocks.comparison .arduino j n).Obeys contract NeutralCode := by
  have hsign : ∀ op : ComparisonOp, Neutral (" " ++ op.sign ++ " ") := by
    intro op
    cases op <;> decide
  exact obeys_binary _ (hsign _) (by decide)

theorem obeys_logic : (Blocks.logic .arduino j n).Obeys contract NeutralCode := by
  have hsign : ∀ op : LogicOp, Neutral (" " ++ op.sign .arduino ++ " ") := by
    intro op
    cases op <;> decide
  exact obeys_binary _ (hsign _) (by decide)

theorem obeys_negation : (Blocks.negation .arduino j n).Obeys contract NeutralCode := by
  refine (obeys_valueCode n "BOOL" _ (by decide)).result fun operand hoperand => ?_
  exact Carries.neutral (s := "!") (by decide) hoperand

/-- The parentheses around the arguments of a call are its own. -/
theorem obeys_call : (Blocks.call .arduino j n).Obeys contract Neutral := by
  refine (Obeys.mapM (q := Neutral) fun i _ => obeys_valueCode n _ _ (by decide)).result
    fun args hargs => ?_
  have hname : Neutral (Blocks.nameField n "NAME" "do_something") :=
    neutral_nameField n _ (by decide)
  have hlist : Neutral (", ".intercalate args) := neutral_intercalate (by decide) hargs
  have hopen := Carries.append (c := ['(']) hname (t := "(") (by decide)
  exact (hopen.neutral hlist).append (by decide)

/-! ## Pins and the setup -/

/-- The line of the setup for a pin closes its parentheses. -/
theorem obeys_setPinMode {pin : String} (hpin : Neutral pin) (mode : Blocks.PinMode) :
    (Blocks.setPinMode pin mode).Obeys contract fun _ => True := by
  have hlabel : Neutral mode.label := by
    cases mode <;> decide
  have hopen : Carries [] "pinMode(" ['('] := by decide
  have hline : Neutral ("pinMode(" ++ pin ++ ", " ++ mode.label ++ ");") :=
    (((hopen.neutral hpin).neutral (by decide)).neutral hlabel).append (by decide)
  exact .ask hline fun _ _ => .done trivial

theorem obeys_digitalRead (hn : HasFitFields n) :
    (Blocks.digitalRead .arduino n).Obeys contract NeutralCode := by
  have hpin := hn.neutral_fieldOr "PIN" "2" (by decide) (by decide)
  have hopen : Carries [] "digitalRead(" ['('] := by decide
  exact (obeys_setPinMode hpin .input).result fun _ _ => (hopen.neutral hpin).append (by decide)

theorem neutral_analogRead (hn : HasFitFields n) :
    Neutral ("analogRead(" ++ n.fieldOr "PIN" "A0" ++ ")") := by
  have hpin := hn.neutral_fieldOr "PIN" "A0" (by decide) (by decide)
  have hopen : Carries [] "analogRead(" ['('] := by decide
  exact (hopen.neutral hpin).append (by decide)

theorem obeys_serialSetup (hn : HasFitFields n) :
    (Blocks.serialSetup .arduino n).Obeys contract NeutralCode := by
  have hbaud := hn.neutral_fieldOr "BAUD" "9600" (by decide) (by decide)
  have hopen : Carries [] "Serial.begin(" ['('] := by decide
  refine (obeys_setup ?_).result fun _ _ => neutral_empty
  exact (hopen.neutral hbaud).append (by decide)

theorem obeys_servoAttach (hn : HasFitFields n) :
    (Blocks.servoAttach .arduino n).Obeys contract NeutralCode := by
  have hpin := hn.neutral_fieldOr "PIN" "9" (by decide) (by decide)
  have hname : Neutral (Blocks.nameField n "NAME" "servo") := neutral_nameField n _ (by decide)
  have hinclude : Neutral "#include <Servo.h>" := by decide
  refine (obeys_declare hinclude).bind fun _ _ => ?_
  refine (obeys_declare ?_).bind fun _ _ => ?_
  · exact (Carries.neutral (s := "Servo ") (by decide) hname).neutral (by decide)
  · refine (obeys_setup ?_).result fun _ _ => neutral_empty
    have hopen := Carries.append (c := ['(']) hname (t := ".attach(") (by decide)
    exact (hopen.neutral hpin).append (by decide)

theorem obeys_interruptTrigger :
    (Blocks.interruptTrigger .arduino n).Obeys contract Neutral := by
  have hknown : ∀ mode trigger, Blocks.interruptTrigger? .arduino mode = some trigger →
      Neutral trigger := by
    intro mode trigger h
    unfold Blocks.interruptTrigger? at h
    split at h <;> cases h <;> decide
  simp only [Blocks.interruptTrigger]
  split
  · rename_i trigger htrigger
    exact obeys_pure (hknown _ trigger htrigger)
  · exact (obeys_notice _).result fun _ _ => show Neutral "RISING" by decide

/-- The parentheses of the call that attaches an interrupt are closed in its line. -/
theorem obeys_interruptAttach (hn : HasFitFields n) :
    (Blocks.interruptAttach .arduino n).Obeys contract NeutralCode := by
  have hpin := hn.neutral_fieldOr "PIN" "2" (by decide) (by decide)
  have hhandler : Neutral (Blocks.nameField n "HANDLER" "on_interrupt") :=
    neutral_nameField n _ (by decide)
  refine obeys_interruptTrigger.bind fun trigger htrigger => ?_
  refine (obeys_declare ?_).bind fun _ _ => ?_
  · exact (Carries.neutral (s := "void ") (by decide) hhandler).neutral (by decide)
  · refine (obeys_setup ?_).result fun _ _ => neutral_empty
    have hopen : Carries [] "attachInterrupt(digitalPinToInterrupt(" ['(', '('] := by decide
    have hinner := (hopen.neutral hpin).append (c := ['(']) (t := "), ") (by decide)
    have hargs := ((hinner.neutral hhandler).neutral (t := ", ") (by decide)).neutral htrigger
    exact hargs.append (by decide)

end Expressions

/-! ## Statements of one line -/

section Statements

variable {j : Job} {n : Node} (hb : j.backend = Target.arduino.backend)

include hb

theorem obeys_digitalWrite (hn : HasFitFields n) :
    (Blocks.digitalWrite .arduino j n).Obeys contract NeutralCode := by
  have hpin := hn.neutral_fieldOr "PIN" "13" (by decide) (by decide)
  refine (obeys_setPinMode hpin .output).bind fun _ _ => ?_
  refine (obeys_valueCode n "STATE" _ (by decide)).result fun state hstate => ?_
  have hopen : Carries [] "digitalWrite(" ['('] := by decide
  have hargs := ((hopen.neutral hpin).neutral (t := ", ") (by decide)).neutral hstate
  exact neutral_line hb (hargs.append (by decide))

theorem obeys_analogWrite (hn : HasFitFields n) :
    (Blocks.analogWrite .arduino j n).Obeys contract NeutralCode := by
  have hpin := hn.neutral_fieldOr "PIN" "3" (by decide) (by decide)
  refine (obeys_setPinMode hpin .output).bind fun _ _ => ?_
  refine (obeys_valueCode n "NUM" _ (by decide)).result fun value hvalue => ?_
  have hopen : Carries [] "analogWrite(" ['('] := by decide
  have hargs := ((hopen.neutral hpin).neutral (t := ", ") (by decide)).neutral hvalue
  exact neutral_line hb (hargs.append (by decide))

theorem obeys_delay : (Blocks.delay .arduino j n).Obeys contract NeutralCode := by
  refine (obeys_valueCode n "DELAY_TIME" _ (by decide)).result fun time htime => ?_
  have hopen : Carries [] "delay(" ['('] := by decide
  exact neutral_line hb ((hopen.neutral htime).append (by decide))

theorem obeys_serialPrint : (Blocks.serialPrint .arduino j n).Obeys contract NeutralCode := by
  refine (obeys_valueCode n "CONTENT" _ (by decide)).result fun content hcontent => ?_
  have hfunction : Neutral (if n.flag "NEWLINE" true then "println" else "print") := by
    split <;> decide
  have hname := Carries.neutral (s := "Serial.") (by decide : Neutral "Serial.") hfunction
  have hopen := hname.append (c := ['(']) (t := "(") (by decide)
  exact neutral_line hb ((hopen.neutral hcontent).append (by decide))

theorem obeys_servoWrite : (Blocks.servoWrite .arduino j n).Obeys contract NeutralCode := by
  have hname : Neutral (Blocks.nameField n "NAME" "servo") := neutral_nameField n _ (by decide)
  refine (obeys_valueCode n "DEGREE" _ (by decide)).result fun degrees hdegrees => ?_
  have hopen := Carries.append (c := ['(']) hname (t := ".write(") (by decide)
  exact neutral_line hb ((hopen.neutral hdegrees).append (by decide))

theorem obeys_assignment (hn : HasFitFields n) :
    (Blocks.assignment .arduino j n).Obeys contract NeutralCode := by
  have htype := hn.neutral_fieldOr "TYPE" "long" (by decide) (by decide)
  have hvar : Neutral (Blocks.nameField n "VAR" "item") := neutral_nameField n _ (by decide)
  refine (obeys_declare ?_).bind fun _ _ => ?_
  · exact ((Carries.neutral htype (by decide)).neutral hvar).neutral (by decide)
  · refine (obeys_valueCode n "VALUE" _ (by decide)).result fun value hvalue => ?_
    exact neutral_line hb ((Carries.neutral hvar (by decide)).neutral hvalue)

theorem obeys_callStatement : (Blocks.callStatement .arduino j n).Obeys contract NeutralCode :=
  obeys_call.result fun _ htext => neutral_line hb htext

theorem neutral_returnLine {value : String} (h : Neutral value) :
    Neutral (j.line ("return " ++ value)) :=
  neutral_line hb (Carries.neutral (by decide : Neutral "return ") h)

theorem obeys_returnStatement : (Blocks.returnStatement j n).Obeys contract NeutralCode := by
  refine (obeys_valueCode? n "VALUE" _).bind fun value hvalue => ?_
  cases value with
  | none =>
    have hline : Neutral "return" := by decide
    exact obeys_pure (neutral_line hb hline)
  | some text => exact obeys_pure (neutral_returnLine hb (hvalue text rfl))

theorem obeys_loopExit (i : NodeId) : (Blocks.loopExit j i n).Obeys contract NeutralCode := by
  simp only [Blocks.loopExit]
  by_cases hloop : j.standsInLoop i = true
  · rw [if_pos hloop]
    refine obeys_pure (neutral_line hb ?_)
    split <;> decide
  · rw [if_neg hloop]
    exact (obeys_notice _).result fun _ _ => neutral_jobComment hb _

/-! ## Statements with a body -/

omit hb in
/-- A header with its parenthesis still open, then a body in braces. -/
theorem Carries.braces {front body tail : String} (hfront : Carries [] front ['('])
    (hbody : Neutral body) (htail : Carries ['\x7b'] tail []) :
    Neutral (front ++ ") \x7b\n" ++ body ++ tail) := by
  have hheader := hfront.append (c := ['\x7b']) (t := ") \x7b\n") (by decide)
  exact (hheader.neutral hbody).append htail

/-- A branch opens a brace before its body and closes it after that. -/
theorem obeys_braceBranch (k : Nat) : (Blocks.braceBranch j n k).Obeys contract Neutral := by
  refine (obeys_valueCode n _ _ (by decide)).bind fun condition hcondition => ?_
  refine (obeys_slotCode hb n _).result fun body hbody => ?_
  have hkeyword : Neutral (if k = 0 then "if" else " else if") := by
    split <;> decide
  have hopen := Carries.append (c := ['(']) hkeyword (t := " (") (by decide)
  exact (hopen.neutral hcondition).braces hbody (by decide)

theorem obeys_braceOtherwise : (Blocks.braceOtherwise j n).Obeys contract Neutral := by
  unfold Blocks.braceOtherwise
  split
  · refine (obeys_slotCode hb n "ELSE").result fun body hbody => ?_
    have hopen : Carries [] " else \x7b\n" ['\x7b'] := by decide
    exact (hopen.neutral hbody).append (by decide)
  · exact obeys_pure neutral_empty

/-- Each branch closes its own brace. -/
theorem obeys_conditional : (Blocks.conditional .arduino j n).Obeys contract NeutralCode := by
  refine (Obeys.mapM (q := Neutral) fun k _ => obeys_braceBranch hb k).bind
    fun branches hbranches => ?_
  refine (obeys_braceOtherwise hb).result fun otherwise hotherwise => ?_
  exact (Carries.neutral (neutral_join hbranches) hotherwise).neutral (by decide)

theorem obeys_repeatLoop : (Blocks.repeatLoop .arduino j n).Obeys contract NeutralCode := by
  refine (obeys_valueCode n "TIMES" _ (by decide)).bind fun times htimes => ?_
  refine (obeys_slotCode hb n "DO").result fun body hbody => ?_
  have hcounter : Neutral ("count_" ++ n.symbolSuffix) :=
    Carries.neutral (by decide : Neutral "count_") (neutral_symbol _)
  have hopen : Carries [] "for (int " ['('] := by decide
  have hstart := (hopen.neutral hcounter).neutral (t := " = 0; ") (by decide)
  have htest := ((hstart.neutral hcounter).neutral (t := " < ") (by decide)).neutral htimes
  have hstep := (htest.neutral (t := "; ") (by decide)).neutral hcounter
  have hheader := hstep.append (c := ['\x7b']) (t := "++) \x7b\n") (by decide)
  exact (hheader.neutral hbody).append (by decide)

theorem obeys_conditionLoop : (Blocks.conditionLoop .arduino j n).Obeys contract NeutralCode := by
  have hcondition : (Blocks.loopCondition .arduino j n).Obeys contract Neutral := by
    unfold Blocks.loopCondition
    split
    · refine (obeys_valueCode n "BOOL" _ (by decide)).result fun value hvalue => ?_
      exact Carries.neutral (by decide : Neutral "!") hvalue
    · exact obeys_valueCode n "BOOL" _ (by decide)
  refine hcondition.bind fun condition hcondition => ?_
  refine (obeys_slotCode hb n "DO").result fun body hbody => ?_
  have hopen : Carries [] "while (" ['('] := by decide
  exact (hopen.neutral hcondition).braces hbody (by decide)

omit hb in
/-- What is written as a number could stand in a field. -/
theorem all_isFieldChar_of_scan? {cs : List Char} {m : Numeral} (h : Numeral.scan? cs = some m) :
    cs.all isFieldChar = true := by
  obtain ⟨exponent, hexponent, -⟩ := Option.map_eq_some_iff.mp h
  obtain ⟨sg, hsg, hcs, -⟩ := Numeral.splitSign_parts cs
  generalize (Numeral.splitSign cs).2 = body at hexponent hcs
  have hsigns : ∀ sg ∈ [[], ['+'], ['-']], sg.all isFieldChar = true := by decide
  have hdigits : ∀ ds : List Char, (∀ c ∈ ds, c.isDigit = true) → ds.all isFieldChar = true := by
    intro ds hds
    refine List.all_eq_true.mpr fun c hc => ?_
    simp [isFieldChar, Char.isAlphanum, hds c hc]
  have hlast : ∀ rest, Numeral.exponentOf? rest = some exponent → rest.all isFieldChar = true := by
    intro rest hrest
    rcases Numeral.exponentOf?_parts hrest with rfl | ⟨e, he, sg, hsg, ds, rfl, hds⟩
    · rfl
    · have hletters : ['e', 'E'].all isFieldChar = true := by decide
      rw [List.all_cons, List.all_append, List.all_eq_true.mp hletters e he, hsigns sg hsg,
        hdigits ds hds]
      rfl
  -- Sign, digits, fraction and exponent, from the back to the front.
  have hfraction : (body.dropWhile Char.isDigit).all isFieldChar = true := by
    rcases Numeral.splitFraction_parts (body.dropWhile Char.isDigit) with
      hsplit | ⟨ds, rest, hbody, hsplit, hds⟩
    · rw [hsplit] at hexponent
      exact hlast _ hexponent
    · rw [hsplit] at hexponent
      rw [hbody, List.all_cons, List.all_append, hdigits ds hds, hlast rest hexponent]
      rfl
  rw [hcs, ← List.takeWhile_append_dropWhile (p := Char.isDigit) (l := body), List.all_append,
    List.all_append, hsigns sg hsg, hfraction, hdigits _ fun c hc => List.mem_takeWhile_imp hc]
  rfl

omit hb in
/-- A text that is a number opens and closes nothing. -/
theorem inert_of_literalValue? {code : String} {x : Binary64}
    (h : Blocks.literalValue? code = some x) : Inert (trim code) := by
  rw [Blocks.literalValue?, Numeral.value?] at h
  split at h
  · rename_i m hscan
    exact inert_of_all (all_isFieldChar_of_scan? hscan)
  · cases h

omit hb in
/-- The comparison and the step of a counting loop close what they open. -/
theorem neutral_countingHeader {var last step : String} (hvar : Neutral var) (hlast : Neutral last)
    (hstep : Neutral step) : Neutral (Blocks.countingHeader var last step).1 ∧
      Neutral (Blocks.countingHeader var last step).2 := by
  have hadd : Neutral (var ++ " += " ++ step) := (Carries.neutral hvar (by decide)).neutral hstep
  have hup : Neutral (var ++ " <= " ++ last) := (Carries.neutral hvar (by decide)).neutral hlast
  have hdown : Neutral (var ++ " >= " ++ last) := (Carries.neutral hvar (by decide)).neutral hlast
  cases hvalue : Blocks.literalValue? step with
  | none =>
    simp only [Blocks.countingHeader, hvalue]
    refine ⟨?_, hadd⟩
    have htest : Neutral (step ++ " >= 0 ? ") := Carries.neutral hstep (by decide)
    have hcond := ((htest.neutral hvar).neutral (t := " <= ") (by decide)).neutral hlast
    have helse := (hcond.neutral (t := " : ") (by decide)).neutral hvar
    exact (helse.neutral (by decide)).neutral hlast
  | some x =>
    simp only [Blocks.countingHeader, hvalue]
    split
    · refine ⟨hdown, (Carries.neutral hvar (by decide)).neutral (Inert.neutral ?_)⟩
      intro c hc
      rw [String.toList_ofList] at hc
      exact inert_of_literalValue? hvalue c ((List.dropWhile_sublist _).subset hc)
    · exact ⟨hup, hadd⟩

/-- The header of a counting loop closes its parentheses, and its body its brace. -/
theorem obeys_countingLoop : (Blocks.countingLoop .arduino j n).Obeys contract NeutralCode := by
  have hvar : Neutral (Blocks.nameField n "VAR" "i") := neutral_nameField n _ (by decide)
  refine (obeys_declare ?_).bind fun _ _ => ?_
  · exact (Carries.neutral (s := "long ") (by decide) hvar).neutral (by decide)
  refine (obeys_valueCode n "FROM" _ (by decide)).bind fun start hstart => ?_
  refine (obeys_valueCode n "TO" _ (by decide)).bind fun last hlast => ?_
  refine (obeys_valueCode n "BY" _ (by decide)).bind fun step hstep => ?_
  refine (obeys_slotCode hb n "DO").result fun body hbody => ?_
  obtain ⟨htest, hmove⟩ := neutral_countingHeader hvar hlast hstep
  have hopen : Carries [] "for (" ['('] := by decide
  have hinit := ((hopen.neutral hvar).neutral (t := " = ") (by decide)).neutral hstart
  have hparts := (((hinit.neutral (t := "; ") (by decide)).neutral htest).neutral (t := "; ")
    (by decide)).neutral hmove
  exact hparts.braces hbody (by decide)

/-- The comparison of times is closed within its line, and the body by its brace. -/
theorem obeys_timedRepeat : (Blocks.timedRepeat .arduino j n).Obeys contract NeutralCode := by
  have hstate : Neutral (Blocks.timerState n) :=
    (Carries.neutral (by decide : Neutral "every_") (neutral_symbol _)).neutral (by decide)
  refine (obeys_declare ?_).bind fun _ _ => ?_
  · exact (Carries.neutral (s := "unsigned long ") (by decide) hstate).neutral (by decide)
  refine (obeys_valueCode n "INTERVAL" _ (by decide)).bind fun interval hinterval => ?_
  refine (obeys_slotCode hb n "DO").result fun body hbody => ?_
  have hreset : Neutral (Blocks.timerState n ++ " = millis()") := Carries.neutral hstate (by decide)
  have hopen : Carries [] "if (millis() - " ['('] := by decide
  have htest := ((hopen.neutral hstate).neutral (t := " >= ") (by decide)).neutral hinterval
  have hheader := htest.append (c := ['\x7b']) (t := ") \x7b\n") (by decide)
  exact ((hheader.neutral (neutral_indent hb (neutral_line hb hreset))).neutral hbody).append
    (by decide)

theorem obeys_returnLine : (Blocks.returnLine j n).Obeys contract Neutral := by
  unfold Blocks.returnLine
  split
  · refine (obeys_valueCode? n "RETURN" _).bind fun value hvalue => ?_
    cases value with
    | none => exact obeys_pure neutral_empty
    | some text =>
      exact obeys_pure (neutral_indent hb (neutral_returnLine hb (hvalue text rfl)))
  · exact obeys_pure neutral_empty

omit hb in
/-- Parameters are words with a type before them. -/
theorem neutral_parameters (n : Node) :
    Neutral (", ".intercalate ((Blocks.parameters n).map ("long " ++ ·))) := by
  refine neutral_intercalate (by decide) fun t ht => ?_
  obtain ⟨name, hname, rfl⟩ := List.mem_map.mp ht
  obtain ⟨piece, -, rfl⟩ := List.mem_map.mp hname
  have hword : isWord (identifier piece "arg").toList = true := isWord_identifier piece (by decide)
  exact Carries.neutral (by decide : Neutral "long ") (inert_of_isWord hword).neutral

/-- A procedure closes the parentheses of its parameters and the brace of its body. -/
theorem obeys_procedure (hn : HasFitFields n) (i : NodeId) :
    (Blocks.procedure .arduino j i n).Obeys contract NeutralCode := by
  have hresult : Neutral (if Blocks.returnsValue n then n.fieldOr "TYPE" "long" else "void") := by
    split
    · exact hn.neutral_fieldOr "TYPE" "long" (by decide) (by decide)
    · decide
  have hname : Neutral (Blocks.nameField n "NAME" "do_something") :=
    neutral_nameField n _ (by decide)
  have hopen := ((Carries.neutral hresult (t := " ") (by decide)).neutral hname).append
    (c := ['(']) (t := "(") (by decide)
  have hsignature := (hopen.neutral (neutral_parameters n)).append (c := []) (t := ")") (by decide)
  refine (obeys_declare (hsignature.neutral (by decide))).bind fun _ _ => ?_
  refine (obeys_slotCode hb n "STACK").bind fun stack hstack => ?_
  refine (obeys_returnLine hb).result fun returned hreturned => ?_
  have hheader := hsignature.append (c := ['\x7b']) (t := " \x7b\n") (by decide)
  exact ((hheader.neutral hstack).neutral hreturned).append (by decide)

/-- The functions that an entry point turns into close their braces. -/
theorem obeys_entry : (Blocks.entry .arduino j n).Obeys contract NeutralCode := by
  refine (obeys_enterProgram _).bind fun _ _ => Job.obeys_alwaysEmittedPass.bind fun _ _ => ?_
  refine (obeys_slotCode hb n "SETUP").bind fun setupBody hsetup => ?_
  refine (obeys_slotCode hb n "LOOP").bind fun loopBody hloop => ?_
  refine obeys_setupLines.result fun lines hlines => ?_
  obtain ⟨c, hc, rfl⟩ := hlines
  have hopen : Carries [] "void setup() \x7b\n" ['\x7b'] := by decide
  have hfirst := (hopen.neutral (neutral_indent hb (neutral_flush hc))).neutral hsetup
  have hsecond := hfirst.append (c := ['\x7b']) (t := "\x7d\n\nvoid loop() \x7b\n") (by decide)
  exact (hsecond.neutral hloop).append (by decide)

end Statements

/-! ## All blocks -/

section Source

variable {j : Job} (hb : j.backend = Target.arduino.backend)

include hb

/-- Whatever the kind of a block is, its code closes what it opens. -/
theorem obeys_script {i : NodeId} (hn : HasFitFields (j.node i)) (kind : BlockKind) :
    (Generator.script ⟨.arduino, kind⟩ j i).Obeys contract NeutralCode := by
  have hguarded : ∀ script : Script Code, script.Obeys contract NeutralCode →
      (j.guarded i script).Obeys contract NeutralCode := fun _ h =>
    Job.obeys_guarded_of neutral_empty fun _ => h
  cases kind with
  | entry => exact obeys_entry hb
  | procedure => exact obeys_procedure hb hn i
  | serialSetup => exact obeys_serialSetup hn
  | servoAttach => exact obeys_servoAttach hn
  | interruptAttach => exact obeys_interruptAttach hn
  | conditional => exact hguarded _ (obeys_conditional hb)
  | repeatLoop => exact hguarded _ (obeys_repeatLoop hb)
  | conditionLoop => exact hguarded _ (obeys_conditionLoop hb)
  | countingLoop => exact hguarded _ (obeys_countingLoop hb)
  | loopExit => exact hguarded _ (obeys_loopExit hb i)
  | returnStatement => exact hguarded _ (obeys_returnStatement hb)
  | timedRepeat => exact hguarded _ (obeys_timedRepeat hb)
  | assignment => exact obeys_assignment hb hn
  | digitalWrite => exact obeys_digitalWrite hb hn
  | analogWrite => exact obeys_analogWrite hb hn
  | serialPrint => exact obeys_serialPrint hb
  | delay => exact obeys_delay hb
  | servoWrite => exact obeys_servoWrite hb
  | callStatement => exact obeys_callStatement hb
  | number => exact obeys_pure (hn.inert_fieldOr "NUM" "0" (by decide) (by decide)).trim.neutral
  | boolean => exact obeys_pure (neutralCode_boolean _)
  | text => exact obeys_pure (neutral_literal _)
  | variableValue => exact obeys_pure (neutral_nameField _ "VAR" (by decide))
  | arithmetic => exact obeys_arithmetic
  | comparison => exact obeys_comparison
  | logic => exact obeys_logic
  | negation => exact obeys_negation
  | digitalRead => exact obeys_digitalRead hn
  | analogRead => exact obeys_pure (neutral_analogRead hn)
  | milliseconds => exact obeys_pure (show Neutral "millis()" by decide)
  | callExpression => exact obeys_call.result fun _ h => h

theorem obeys_blockScript {i : NodeId} (hn : HasFitFields (j.node i)) :
    (j.blockScript i).Obeys contract NeutralCode :=
  Job.obeys_blockScript_of hb neutral_empty fun kind _ => obeys_script hb hn kind

/-! ## The source -/

/-- The type of an orphan is an arbitrary text, but each of its lines is behind a comment mark. -/
theorem obeys_topLevel (options : Options) (i : NodeId) :
    (j.topLevel options i).Obeys contract Neutral := by
  simp only [Job.topLevel]
  split
  · exact (obeys_notice _).bind fun _ _ => (obeys_generate i).result fun _ hcode => hcode
  · refine (obeys_notice _).bind fun _ _ => (obeys_report _).result fun _ _ => ?_
    split
    · exact neutral_jobComment hb _
    · exact neutral_empty

omit hb in
/-- Parts that close what they open stay so without the line feeds at their ends. -/
theorem neutral_parts {parts : List String} (hne : parts ≠ []) (h : ∀ t ∈ parts, Neutral t) :
    Neutral ("\n\n".intercalate (parts.map trimLineFeeds) ++ "\n") := by
  induction parts with
  | nil => exact absurd rfl hne
  | cons part rest ih =>
    have hpart := (h part List.mem_cons_self).trimLineFeeds
    cases rest with
    | nil =>
      rw [List.map_singleton, String.intercalate_singleton]
      exact hpart
    | cons next rest =>
      have hrest := ih (List.cons_ne_nil _ _) fun t ht => h t (List.mem_cons_of_mem _ ht)
      have hregroup : "\n\n".intercalate ((part :: next :: rest).map trimLineFeeds) ++ "\n" =
          trimLineFeeds part ++ "\n" ++ "\n" ++
            ("\n\n".intercalate ((next :: rest).map trimLineFeeds) ++ "\n") := by
        rw [List.map_cons, List.map_cons, String.intercalate_cons_cons]
        simp only [String.append_assoc]
        rfl
      rw [hregroup]
      exact (Carries.neutral hpart (by decide)).neutral hrest

/-- From blocks to the source. -/
theorem neutral_source (h : j.graph.IsForest) (hfields : ∀ i, HasFitFields (j.node i))
    (options : Options) : Neutral (j.compile options).source :=
  Job.source_of h (fun i => obeys_blockScript hb (hfields i)) (obeys_topLevel hb options)
    (fun _ => neutral_join) (fun _ => neutral_parts) (fun _ => neutral_flush)
    (neutral_jobComment hb _)

end Source

end BlockCompiler.Nesting

namespace BlockCompiler.Job

variable {j : Job}

/-- **Every Arduino source is well nested.**  Literals are closed on their own lines, and outside
of literals and comments braces and parentheses match. -/
theorem source_wellNested (h : j.graph.Built) (hb : j.backend = Target.arduino.backend)
    (hfields : ∀ i < j.graph.size, Nesting.HasFitFields (j.node i)) (options : Options) :
    Nesting.isWellNested (j.compile options).source = true := by
  have hall : ∀ i, Nesting.HasFitFields (j.node i) := by
    intro i
    rcases Nat.lt_or_ge i j.graph.size with hlt | hge
    · exact hfields i hlt
    · -- A position without a block has no fields.
      have hnode : j.node i = default := j.graph.node_of_size_le hge
      rw [hnode]
      exact fun _ _ _ htext => nomatch htext
  exact Nesting.isWellNested_of_neutral (Nesting.neutral_source hb h.isForest hall options)

/-- A program that prints a text of quotes and brackets in a counting loop, and an orphan whose type
has two lines. -/
def quotedDraft : Draft :=
  [.node "main" "arduino_entry", .node "say" "serial_print", .node "words" "text",
    .node "(each" "controls_for", .node "step" "math_number", .node "lost" "un\"known(\n\x7b",
    .setField 2 "TEXT" "\"\\(\n\x7d", .setField 3 "VAR" "n\"(", .setField 4 "NUM" " -2.5 ",
    .setValue 1 "CONTENT" 2, .setValue 3 "BY" 4, .setStatement 3 "DO" 1,
    .setStatement 0 "LOOP" 3].foldl (fun d e => Draft.Edit.apply e d) {}

theorem quotedDraft_reachable : quotedDraft.Reachable :=
  Draft.reachable_of_edits rfl

/-- The compilation of the graph of `quotedDraft`. -/
def quotedJob : Job :=
  ⟨quotedDraft.toGraph, Target.arduino.backend⟩

/-- Quotes, brackets and line feeds in texts, names, keys and types do no harm. -/
theorem source_wellNested_quoted :
    quotedJob.graph.Built ∧
      (∀ i < quotedJob.graph.size, Nesting.HasFitFields (quotedJob.node i)) ∧
      (quotedJob.node 2).fields.get? "TEXT" = some "\"\\(\n\x7d" ∧
      (quotedJob.node 5).type = "un\"known(\n\x7b" ∧ 5 ∈ quotedJob.graph.roots ∧
      Nesting.isWellNested (quotedJob.compile {}).source = true := by
  have hbuilt : quotedJob.graph.Built := quotedDraft_reachable.built rfl
  have hfields : ∀ i < quotedJob.graph.size, Nesting.HasFitFields (quotedJob.node i) := by
    decide +kernel
  exact ⟨hbuilt, hfields, by decide, by decide, by decide,
    source_wellNested hbuilt rfl hfields {}⟩

end BlockCompiler.Job
