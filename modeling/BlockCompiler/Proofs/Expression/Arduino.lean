import BlockCompiler.Proofs.Expression.Settling

/-!
# Arduino expressions

The text generated for an expression block on the Arduino, read by the grammar of C, is
the operator tree of the block and nothing else, as long as no variable and no function is
called like a word of the language (`Built.arduino_expression`).  A call of a function
`sizeof`, which is such a word, is not read as a call (`Built.arduino_call_of_sizeof`).

The levels of the grammar are those of C.  A block of an operator puts its operands into
places of its own order, so an operand without brackets stands at a level below that of
the operator, on either side; this is stricter than the grammar, which lets an operator of
the same level stand on the left.
-/

namespace BlockCompiler

/-- The signs of C and the marks that begin a comment.  What is left of a longer sign without its
last character is a sign as well, so the longest one is found character by character. -/
def Lexicon.c : Lexicon where
  signs := [
    ['['], [']'], ['('], [')'], ['\x7b'], ['\x7d'], ['.'], ['-', '>'], ['+', '+'], ['-', '-'],
    ['&'], ['*'], ['+'], ['-'], ['~'], ['!'], ['/'], ['%'], ['<', '<'], ['>', '>'], ['<'], ['>'],
    ['<', '='], ['>', '='], ['=', '='], ['!', '='], ['^'], ['|'], ['&', '&'], ['|', '|'], ['?'],
    [':'], [';'], ['='], ['*', '='], ['/', '='], ['%', '='], ['+', '='], ['-', '='],
    ['<', '<', '='], ['>', '>', '='], ['&', '='], ['^', '='], ['|', '='], [','], ['#'],
    ['#', '#'], ['/', '/'], ['/', '*']]
  plain := List.forall_iff_forall_mem.mp (by decide)
  apart := by
    simp only [← List.forall_iff_forall_mem]
    decide

/-- The words that are no names.  The constants `true` and `false` stand where names do and are not
among them. -/
def C.keywords : List (List Char) :=
  ["auto", "break", "case", "char", "const", "continue", "default", "do", "double", "else", "enum",
    "extern", "float", "for", "goto", "if", "inline", "int", "long", "register", "restrict",
    "return", "short", "signed", "sizeof", "static", "struct", "switch", "typedef", "union",
    "unsigned", "void", "volatile", "while", "_Alignas", "_Alignof", "_Atomic", "_Bool", "_Complex",
    "_Generic", "_Imaginary", "_Noreturn", "_Static_assert", "_Thread_local"].map String.toList

/-- The operators of C that blocks stand for; those between two operands associate to the left.
Any word is taken for a name. -/
def Grammar.operators : Grammar where
  unary := [(.sign ['!'], ⟨.negation, 1⟩), (.sign ['-'], ⟨.minus, 1⟩)]
  binary := [
    (.sign ['*'], .leftward (.arithmetic .multiply) 2),
    (.sign ['/'], .leftward (.arithmetic .divide) 2),
    (.sign ['+'], .leftward (.arithmetic .add) 3),
    (.sign ['-'], .leftward (.arithmetic .subtract) 3),
    (.sign ['<'], .leftward (.comparison .less) 4),
    (.sign ['<', '='], .leftward (.comparison .lessOrEqual) 4),
    (.sign ['>'], .leftward (.comparison .greater) 4),
    (.sign ['>', '='], .leftward (.comparison .greaterOrEqual) 4),
    (.sign ['=', '='], .leftward (.comparison .equal) 5),
    (.sign ['!', '='], .leftward (.comparison .different) 5),
    (.sign ['&', '&'], .leftward (.logic .and) 6),
    (.sign ['|', '|'], .leftward (.logic .or) 7)]
  loosest := 7
  brackets := by decide
  numerals := fun _ => rfl
  left_le := by decide
  right_le := by decide
  right_le_left := by decide
  unary_keeps := by decide
  binary_keeps := by decide

/-- The grammar of C for these operators, in which keywords are no names. -/
def Grammar.c : Grammar :=
  { Grammar.operators with reserved := C.keywords }

/-- The expressions of C. -/
def Language.c : Language where
  lexicon := .c
  grammar := .c
  unary := by decide
  binary := by decide

/-- What blocks stand for on the Arduino. -/
def Dialect.arduino : Dialect where
  truth b := .name (if b then "true" else "false").toList
  power a b := .call "pow".toList [a, b]
  milliseconds := .call "millis".toList []
  noArgument := .zero

/-- The orders of the Arduino and their levels. -/
def Rendition.arduino : Rendition where
  language := .c
  dialect := .arduino
  levels := [(0, 0), (1, 0), (2, 1), (3, 2), (4, 3), (6, 4), (7, 5), (11, 6), (12, 7)]
  tight := by decide

namespace Rendition

theorem isName_operators (w : List Char) : Grammar.operators.IsName w :=
  ⟨rfl, rfl, List.not_mem_nil⟩

theorem isName_c_iff {w : List Char} : Grammar.c.IsName w ↔ w ∉ C.keywords :=
  ⟨fun h => h.2.2, fun h => ⟨rfl, rfl, h⟩⟩

/-! ## Operators -/

/-- The signs of arithmetic, apart from the power, which C has no sign for. -/
theorem arduino_writes_arithmetic {op : ArithmeticOp} (h : op ≠ .power) :
    arduino.Writes (.arithmetic op) op.sign (Target.arduino.order op.binding) := by
  cases op with
  | add => exact ⟨.sign ['+'], _, rfl, rfl, rfl, by decide, by decide, by decide⟩
  | subtract => exact ⟨.sign ['-'], _, rfl, rfl, rfl, by decide, by decide, by decide⟩
  | multiply => exact ⟨.sign ['*'], _, rfl, rfl, rfl, by decide, by decide, by decide⟩
  | divide => exact ⟨.sign ['/'], _, rfl, rfl, rfl, by decide, by decide, by decide⟩
  | power => exact absurd rfl h

theorem arduino_writes_comparison (op : ComparisonOp) :
    arduino.Writes (.comparison op) op.sign (Target.arduino.order op.binding) := by
  cases op with
  | equal => exact ⟨.sign ['=', '='], _, rfl, rfl, rfl, by decide, by decide, by decide⟩
  | different => exact ⟨.sign ['!', '='], _, rfl, rfl, rfl, by decide, by decide, by decide⟩
  | less => exact ⟨.sign ['<'], _, rfl, rfl, rfl, by decide, by decide, by decide⟩
  | lessOrEqual => exact ⟨.sign ['<', '='], _, rfl, rfl, rfl, by decide, by decide, by decide⟩
  | greater => exact ⟨.sign ['>'], _, rfl, rfl, rfl, by decide, by decide, by decide⟩
  | greaterOrEqual => exact ⟨.sign ['>', '='], _, rfl, rfl, rfl, by decide, by decide, by decide⟩

theorem arduino_writes_logic (op : LogicOp) :
    arduino.Writes (.logic op) (op.sign .arduino) (Target.arduino.order op.binding) := by
  cases op with
  | and => exact ⟨.sign ['&', '&'], _, rfl, rfl, rfl, by decide, by decide, by decide⟩
  | or => exact ⟨.sign ['|', '|'], _, rfl, rfl, rfl, by decide, by decide, by decide⟩

/-- A minus right before a number is no longer sign. -/
theorem extend?_minus {c : Char} (hc : c.isDigit = true ∨ c = '.') :
    Lexicon.c.extend? (.sign ['-']) c = none := by
  refine Lexicon.extend?_eq_none [[], ['>'], ['-'], ['=']] (by decide) (by decide) ?_
  intro hmem
  simp only [List.mem_cons, List.cons.injEq, and_true, List.not_mem_nil, or_false, reduceCtorEq,
    false_or] at hmem
  rcases hmem with rfl | rfl | rfl <;> simp at hc

/-- A negation becomes another sign before an equality sign only. -/
theorem extend?_negation {c : Char} (hc : c ≠ '=') : Lexicon.c.extend? (.sign ['!']) c = none :=
  Lexicon.extend?_eq_none [[], ['=']] (by decide) (by decide) (by simpa using hc)

theorem arduino_writesMinus : arduino.WritesMinus (Target.arduino.order .sign) :=
  ⟨⟨.minus, 1⟩, rfl, rfl, by decide, fun _ => extend?_minus⟩

theorem spells_word {text : String} (h : isWord text.toList = true)
    (hname : text.toList ∉ C.keywords) : Language.c.Spells 0 text (.name text.toList) :=
  .name h (isName_c_iff.mpr hname) rfl

/-- The two truth values are names. -/
theorem spells_truth (b : Bool) :
    Language.c.Spells 0 (Target.arduino.truth b) (Dialect.arduino.truth b) := by
  cases b <;> exact spells_word (by decide) (by decide)

/-- A power is a call. -/
theorem spells_power {a b : String} {ea eb : Expression} (ha : Language.c.Spells 7 a ea)
    (hb : Language.c.Spells 7 b eb) :
    Language.c.Spells 0 ("pow(" ++ a ++ ", " ++ b ++ ")") (Dialect.arduino.power ea eb) := by
  have hcall : Language.c.Spells 0 ("pow" ++ "(" ++ ", ".intercalate [a, b] ++ ")")
      (.call "pow".toList [ea, eb]) :=
    .call (by decide) (by decide) (isName_c_iff.mpr (by decide)) rfl (.cons ha (.cons hb .nil))
  have htext : "pow" ++ "(" ++ ", ".intercalate [a, b] ++ ")" = "pow(" ++ a ++ ", " ++ b ++ ")" := by
    apply String.toList_injective
    simp [String.intercalate_cons_cons]
  rwa [htext] at hcall

theorem arduino_writesArithmetic : arduino.WritesArithmetic .arduino := by
  intro j o op hslots
  -- Only a power has no sign that stands between its operands.
  by_cases hpower : op = .power
  · subst hpower
    obtain ⟨a, ta, hdenotesa, hyieldsa, hspellsa⟩ :=
      exists_slot hslots (spells_zero _) arduino.fits_loosest "A"
    obtain ⟨b, tb, hdenotesb, hyieldsb, hspellsb⟩ :=
      exists_slot hslots (spells_zero _) arduino.fits_loosest "B"
    exact ⟨a, b, _, 1, 0, hdenotesa, hdenotesb,
      hyieldsa.bind (hyieldsb.bind (Job.yields_pure _)), by decide, spells_power hspellsa hspellsb⟩
  · have harithmetic : Dialect.arduino.arithmetic op = .binary (.arithmetic op) := by
      cases op <;> first | rfl | exact absurd rfl hpower
    have happly : Blocks.applyArithmetic .arduino j (j.node o) op =
        Blocks.binary j (j.node o) op.sign (Target.arduino.order op.binding) "0" := by
      cases op <;> first | rfl | exact absurd rfl hpower
    obtain ⟨a, b, text, n, ha, hb, hcode, hlevel, hspells⟩ :=
      exists_binary hslots (spells_zero _) (arduino_writes_arithmetic hpower)
    refine ⟨a, b, text, _, n, ha, hb, ?_, hlevel, ?_⟩
    · rw [happly]
      exact hcode
    · show Language.c.Spells n text (Dialect.arduino.arithmetic op a b)
      rw [harithmetic]
      exact hspells

theorem arduino_writesNegation : arduino.WritesNegation .arduino := by
  refine ⟨0, 1, by decide, by decide, fun text e hspells => ?_⟩
  refine .unary (t := .sign ['!']) (u := ⟨.negation, 1⟩) rfl (hspells.looser (Nat.zero_le 1)) rfl
    (by decide) fun d tail htext => ?_
  obtain ⟨c, rest, hcrest, hc⟩ := hspells.head
  rw [hcrest] at htext
  obtain ⟨rfl, -⟩ := List.cons.inj htext
  exact extend?_negation hc

/-- The backend of the Arduino writes the operators of C. -/
theorem arduino_serves : arduino.Serves .arduino where
  atomic := by decide
  call := by decide
  minus := arduino_writesMinus
  arithmetic := arduino_writesArithmetic
  comparison := arduino_writes_comparison
  logic := arduino_writes_logic
  negation := arduino_writesNegation
  truth := spells_truth
  noArgument := spells_zero _
  milliseconds := ⟨"millis()",
    .call (by decide) (by decide) (isName_c_iff.mpr (by decide)) (rfl : "millis".toList = _) .nil,
    fun _ => Job.yields_pure _⟩

end Rendition

namespace Graph

variable {g : Graph} {i : NodeId}

/-- **The code of an expression block, read by the grammar of C, is the tree of the block.**  There
is exactly one such tree, every run generates the same text for the block, and the text derives the
tree and no other. -/
theorem Built.arduino_expression (h : g.Built) (hi : g.IsExpression i)
    (hnames : g.AvoidsKeywords C.keywords i) :
    ∃ e text order, (∀ e', g.Denotes .arduino (.block i) e' ↔ e' = e) ∧
      (∀ s, ∃ s', Job.play? ⟨g, Target.arduino.backend⟩ (Script.generate i) s =
        some (.expression text order, s')) ∧
      ∀ e', Language.c.Derives text e' ↔ e' = e := by
  obtain ⟨e, hdenotes, text, order, n, hyields, hlevel, hspells⟩ :=
    Rendition.arduino_serves.settles h.isForest hi fun k hk =>
      Rendition.admits_of_avoidsKeywords (fun _ => Rendition.isName_c_iff.mpr) hnames hk
  refine ⟨e, text, order, ?_, hyields, ?_⟩
  · exact fun e' => ⟨fun he' => he'.unique hdenotes, fun he' => he' ▸ hdenotes⟩
  · exact (hspells.looser (Rendition.arduino.tight _ hlevel).2).derives_iff

/-- A difference between a variable and a difference with a negative number. -/
def differenceDraft : Draft :=
  [.node "A" "math_arithmetic", .node "B" "variables_get", .node "C" "math_arithmetic",
    .node "D" "math_number", .node "E" "math_number", .setField 0 "OP" "MINUS",
    .setField 1 "VAR" "x", .setField 2 "OP" "MINUS", .setField 3 "NUM" "4", .setField 4 "NUM" "-1",
    .setValue 0 "A" 1, .setValue 0 "B" 2, .setValue 2 "A" 3, .setValue 2 "B" 4].foldl
      (fun d e => Draft.Edit.apply e d) {}

theorem differenceDraft_reachable : differenceDraft.Reachable :=
  Draft.reachable_of_edits rfl

theorem differenceDraft_built : differenceDraft.toGraph.Built :=
  differenceDraft_reachable.built rfl

theorem differenceDraft_isExpression : differenceDraft.toGraph.IsExpression 0 :=
  differenceDraft_built.isForest.isExpression (by decide) (by decide)

theorem differenceDraft_avoidsKeywords :
    differenceDraft.toGraph.AvoidsKeywords C.keywords 0 := by
  have hall : ∀ k < 5, ((differenceDraft.toGraph.node k).type = "variables_get" →
        (Blocks.nameField (differenceDraft.toGraph.node k) "VAR" "item").toList ∉ C.keywords) ∧
      ((differenceDraft.toGraph.node k).type = "procedures_callreturn" →
        (Blocks.nameField (differenceDraft.toGraph.node k) "NAME" "do_something").toList ∉
          C.keywords) := by
    decide +kernel
  intro k hk
  exact hall k (differenceDraft_built.isForest.lt_size_of_supplies (by decide) hk)

/-- The inner difference is put into brackets, and the negative number is not. -/
theorem Built.arduino_expression_difference :
    differenceDraft.toGraph.Built ∧ differenceDraft.toGraph.IsExpression 0 ∧
      differenceDraft.toGraph.AvoidsKeywords C.keywords 0 ∧
      ∀ e, Language.c.Derives "x - (4 - -1)" e ↔
        e = .binary (.arithmetic .subtract) (.name ['x'])
          (.binary (.arithmetic .subtract) (.numeral ['4']) (.unary .minus (.numeral ['1']))) := by
  refine ⟨differenceDraft_built, differenceDraft_isExpression, differenceDraft_avoidsKeywords, ?_⟩
  obtain ⟨e, text, order, htree, hcode, hderives⟩ := Built.arduino_expression
    differenceDraft_built differenceDraft_isExpression differenceDraft_avoidsKeywords
  obtain ⟨s, hplay⟩ := hcode {}
  have hrun : Job.play? ⟨differenceDraft.toGraph, Target.arduino.backend⟩ (Script.generate 0) {} =
      some (.expression "x - (4 - -1)" 4, {}) := by
    decide +kernel
  have htext : "x - (4 - -1)" = text := by
    rw [hrun] at hplay
    cases hplay
    rfl
  have hx : differenceDraft.toGraph.Denotes .arduino (.block 1) (.name "x".toList) :=
    denotes_variable rfl (by decide +kernel)
  have he := (htree _).mp (.binary rfl (.filled rfl hx)
    (.filled rfl (.binary rfl (.filled rfl (.leaf rfl)) (.filled rfl (.leaf rfl)))))
  rw [htext]
  rw [← he] at hderives
  exact hderives

/-- A call of a function `sizeof` with one argument. -/
def sizeDraft : Draft :=
  [.node "E" "procedures_callreturn", .node "V" "variables_get", .setField 0 "NAME" "sizeof",
    .setField 1 "VAR" "ready", .setValue 0 "ARG0" 1].foldl (fun d e => Draft.Edit.apply e d) {}

theorem sizeDraft_reachable : sizeDraft.Reachable :=
  Draft.reachable_of_edits rfl

theorem sizeDraft_built : sizeDraft.toGraph.Built :=
  sizeDraft_reachable.built rfl

theorem sizeDraft_isExpression : sizeDraft.toGraph.IsExpression 0 :=
  sizeDraft_built.isForest.isExpression (by decide) (by decide)

/-- **A call of a function `sizeof` is generated as a text that is no call in C**: the word is a
keyword, and no other expression of blocks is written in this way either. -/
theorem Built.arduino_call_of_sizeof :
    sizeDraft.toGraph.Built ∧ sizeDraft.toGraph.IsExpression 0 ∧
      sizeDraft.toGraph.Denotes .arduino (.block 0)
        (.call "sizeof".toList [.name "ready".toList]) ∧
      Job.play? ⟨sizeDraft.toGraph, Target.arduino.backend⟩ (Script.generate 0) {} =
        some (.expression "sizeof(ready)" 1, {}) ∧
      ∀ e, ¬ Language.c.Derives "sizeof(ready)" e := by
  refine ⟨sizeDraft_built, sizeDraft_isExpression, ?_, by decide +kernel, ?_⟩
  · have hready : sizeDraft.toGraph.Denotes .arduino (.block 1) (.name "ready".toList) :=
      denotes_variable rfl (by decide +kernel)
    exact denotes_call rfl rfl (by decide +kernel) rfl hready
  · rintro e ⟨ts, hscan, hreads⟩
    have htokens : Lexicon.c.scan none "sizeof(ready)".toList =
        some [.word "sizeof".toList, .opening, .word "ready".toList, .closing] := by
      decide +kernel
    rw [show Language.c.lexicon = Lexicon.c from rfl, htokens] at hscan
    cases hscan
    rcases hreads.word_cases List.mem_cons_self with hname | hunary | hbinary
    · exact Rendition.isName_c_iff.mp hname (by decide)
    · exact hunary rfl
    · exact hbinary rfl

end Graph

end BlockCompiler
