import BlockCompiler.Proofs.Expression.Python
import BlockCompiler.Proofs.Expression.Settling

/-!
# MicroPython expressions

The text generated for an expression block for MicroPython, read by the grammar of
Python, is the operator tree of the block and nothing else, as long as no variable and no
function is called like a word of the language (`Built.microPython_expression`).  No two
comparisons make a chain: a comparison is an operand of another one in brackets only.

A call of a function `not`, which is a word of the language, is read as a negation
(`Built.microPython_call_of_not`).
-/

namespace BlockCompiler

open Relation

/-- What blocks stand for in MicroPython. -/
def Dialect.microPython : Dialect where
  truth b := .name (if b then "True" else "False").toList
  power := .binary (.arithmetic .power)
  milliseconds := .call "time.ticks_ms".toList []
  noArgument := .name "None".toList

/-- The orders of MicroPython and their levels. -/
def Rendition.microPython : Rendition where
  language := .python
  dialect := .microPython
  levels := [(0, 0), (2, 0), (3, 1), (4, 2), (5, 3), (6, 4), (11, 5), (12, 6), (13, 7), (14, 8)]
  tight := by decide

namespace Rendition

/-! ## Operators -/

theorem microPython_writes_arithmetic (op : ArithmeticOp) :
    microPython.Writes (.arithmetic op) op.sign (Target.microPython.order op.binding) := by
  cases op with
  | add => exact ⟨.sign ['+'], _, rfl, rfl, rfl, by decide, by decide, by decide⟩
  | subtract => exact ⟨.sign ['-'], _, rfl, rfl, rfl, by decide, by decide, by decide⟩
  | multiply => exact ⟨.sign ['*'], _, rfl, rfl, rfl, by decide, by decide, by decide⟩
  | divide => exact ⟨.sign ['/'], _, rfl, rfl, rfl, by decide, by decide, by decide⟩
  | power => exact ⟨.sign ['*', '*'], _, rfl, rfl, rfl, by decide, by decide, by decide⟩

theorem microPython_writes_comparison (op : ComparisonOp) :
    microPython.Writes (.comparison op) op.sign (Target.microPython.order op.binding) := by
  cases op with
  | equal => exact ⟨.sign ['=', '='], _, rfl, rfl, rfl, by decide, by decide, by decide⟩
  | different => exact ⟨.sign ['!', '='], _, rfl, rfl, rfl, by decide, by decide, by decide⟩
  | less => exact ⟨.sign ['<'], _, rfl, rfl, rfl, by decide, by decide, by decide⟩
  | lessOrEqual => exact ⟨.sign ['<', '='], _, rfl, rfl, rfl, by decide, by decide, by decide⟩
  | greater => exact ⟨.sign ['>'], _, rfl, rfl, rfl, by decide, by decide, by decide⟩
  | greaterOrEqual => exact ⟨.sign ['>', '='], _, rfl, rfl, rfl, by decide, by decide, by decide⟩

theorem microPython_writes_logic (op : LogicOp) :
    microPython.Writes (.logic op) (op.sign .microPython) (Target.microPython.order op.binding) := by
  cases op with
  | and => exact ⟨Python.conjunction, _, rfl, rfl, rfl, by decide, by decide, by decide⟩
  | or => exact ⟨Python.disjunction, _, rfl, rfl, rfl, by decide, by decide, by decide⟩

theorem microPython_writesMinus : microPython.WritesMinus (Target.microPython.order .sign) := by
  refine ⟨⟨.minus, 2⟩, rfl, rfl, by decide, fun c hc => ?_⟩
  refine Lexicon.extend?_eq_none [[], ['>'], ['=']] (by decide) (by decide) ?_
  intro hmem
  simp only [List.mem_cons, List.cons.injEq, and_true, List.not_mem_nil, or_false, reduceCtorEq,
    false_or] at hmem
  rcases hmem with rfl | rfl <;> simp at hc

theorem microPython_writesArithmetic : microPython.WritesArithmetic .microPython := by
  intro j o op hslots
  have harithmetic : Dialect.microPython.arithmetic op = .binary (.arithmetic op) := by
    cases op <;> rfl
  have happly : Blocks.applyArithmetic .microPython j (j.node o) op =
      Blocks.binary j (j.node o) op.sign (Target.microPython.order op.binding) "0" := by
    cases op <;> rfl
  obtain ⟨a, b, text, n, ha, hb, hcode, hlevel, hspells⟩ :=
    exists_binary hslots (spells_zero _) (microPython_writes_arithmetic op)
  refine ⟨a, b, text, _, n, ha, hb, ?_, hlevel, ?_⟩
  · rw [happly]
    exact hcode
  · show Language.python.Spells n text (Dialect.microPython.arithmetic op a b)
    rw [harithmetic]
    exact hspells

theorem microPython_writesNegation : microPython.WritesNegation .microPython :=
  ⟨6, 6, by decide, by decide, fun _ _ hspells =>
    .spacedUnary (t := Python.negation) (u := ⟨.negation, 6⟩) rfl hspells rfl (by decide)⟩

/-! ## Words -/

theorem spells_python_word {text : String} (hword : isWord text.toList = true)
    (hname : text.toList ∉ Python.keywords) :
    Language.python.Spells 0 text (.name text.toList) :=
  .name hword (Python.isName_iff.mpr hname) rfl

theorem microPython_serves : microPython.Serves .microPython where
  atomic := by decide
  call := by decide
  minus := microPython_writesMinus
  arithmetic := microPython_writesArithmetic
  comparison := microPython_writes_comparison
  logic := microPython_writes_logic
  negation := microPython_writesNegation
  truth b := by cases b <;> exact spells_python_word (by decide) (by decide)
  noArgument := spells_python_word (by decide) (by decide)
  milliseconds := ⟨"time.ticks_ms()",
    .call (by decide) (by decide) (Python.isName_iff.mpr (by decide))
      (rfl : "time.ticks_ms".toList = _) .nil,
    fun _ => (Job.yields_declare _ _).bind (Job.yields_pure _)⟩

end Rendition

namespace Graph

variable {g : Graph} {i : NodeId}

/-- **The code of an expression block, read by the grammar of Python, is the tree of the block.**
There is exactly one such tree, every run generates the same text for the block, and the text
derives the tree and no other; no comparison in it is a chain. -/
theorem Built.microPython_expression (h : g.Built) (hi : g.IsExpression i)
    (hnames : g.AvoidsKeywords Python.keywords i) :
    ∃ e text order, (∀ e', g.Denotes .microPython (.block i) e' ↔ e' = e) ∧
      (∀ s, ∃ s', Job.play? ⟨g, Target.microPython.backend⟩ (Script.generate i) s =
        some (.expression text order, s')) ∧
      (∀ a, Python.Derives text a ↔ a = .ofExpression e) ∧
      (Python.Tree.ofExpression e).unchained = true := by
  obtain ⟨e, hdenotes, text, order, n, hyields, hlevel, hspells⟩ :=
    Rendition.microPython_serves.settles h.isForest hi fun k hk =>
      Rendition.admits_of_avoidsKeywords (fun _ => Python.isName_iff.mpr) hnames hk
  refine ⟨e, text, order, ?_, hyields, ?_, Python.Tree.unchained_ofExpression e⟩
  · exact fun e' => ⟨fun he' => he'.unique hdenotes, fun he' => he' ▸ hdenotes⟩
  · exact Python.derives_iff (hspells.looser (Rendition.microPython.tight _ hlevel).2)

/-- A comparison whose first operand is a comparison, and whose second operand is a power of a
negative number. -/
def comparisonDraft : Draft :=
  [.node "A" "logic_compare", .node "B" "logic_compare", .node "C" "variables_get",
    .node "D" "variables_get", .node "E" "math_arithmetic", .node "F" "math_number",
    .node "G" "math_number", .setField 0 "OP" "LT", .setField 1 "OP" "LT", .setField 2 "VAR" "x",
    .setField 3 "VAR" "y", .setField 4 "OP" "POWER", .setField 5 "NUM" "-2", .setField 6 "NUM" "2",
    .setValue 0 "A" 1, .setValue 0 "B" 4, .setValue 1 "A" 2, .setValue 1 "B" 3, .setValue 4 "A" 5,
    .setValue 4 "B" 6].foldl (fun d e => Draft.Edit.apply e d) {}

theorem comparisonDraft_reachable : comparisonDraft.Reachable :=
  Draft.reachable_of_edits rfl

theorem comparisonDraft_built : comparisonDraft.toGraph.Built :=
  comparisonDraft_reachable.built rfl

theorem comparisonDraft_isExpression : comparisonDraft.toGraph.IsExpression 0 :=
  comparisonDraft_built.isForest.isExpression (by decide) (by decide)

theorem comparisonDraft_avoidsKeywords :
    comparisonDraft.toGraph.AvoidsKeywords Python.keywords 0 := by
  have hall : ∀ k < 7, ((comparisonDraft.toGraph.node k).type = "variables_get" →
        (Blocks.nameField (comparisonDraft.toGraph.node k) "VAR" "item").toList ∉
          Python.keywords) ∧
      ((comparisonDraft.toGraph.node k).type = "procedures_callreturn" →
        (Blocks.nameField (comparisonDraft.toGraph.node k) "NAME" "do_something").toList ∉
          Python.keywords) := by
    decide +kernel
  intro k hk
  exact hall k (comparisonDraft_built.isForest.lt_size_of_supplies (by decide) hk)

/-- The inner comparison and the negative base of the power are put into brackets. -/
theorem Built.microPython_expression_comparison :
    comparisonDraft.toGraph.Built ∧ comparisonDraft.toGraph.IsExpression 0 ∧
      comparisonDraft.toGraph.AvoidsKeywords Python.keywords 0 ∧
      ∀ a, Python.Derives "(x < y) < (-2) ** 2" a ↔
        a = .comparison (.comparison (.name ['x']) [.less] [.name ['y']]) [.less]
          [.arithmetic .power (.unary .minus (.numeral ['2'])) (.numeral ['2'])] := by
  refine ⟨comparisonDraft_built, comparisonDraft_isExpression, comparisonDraft_avoidsKeywords, ?_⟩
  obtain ⟨e, text, order, htree, hcode, hderives, -⟩ := Built.microPython_expression
    comparisonDraft_built comparisonDraft_isExpression comparisonDraft_avoidsKeywords
  obtain ⟨s, hplay⟩ := hcode {}
  have hrun : Job.play? ⟨comparisonDraft.toGraph, Target.microPython.backend⟩ (Script.generate 0) {} =
      some (.expression "(x < y) < (-2) ** 2" 11, {}) := by
    decide +kernel
  have htext : "(x < y) < (-2) ** 2" = text := by
    rw [hrun] at hplay
    cases hplay
    rfl
  have hx : comparisonDraft.toGraph.Denotes .microPython (.block 2) (.name "x".toList) :=
    denotes_variable rfl (by decide +kernel)
  have hy : comparisonDraft.toGraph.Denotes .microPython (.block 3) (.name "y".toList) :=
    denotes_variable rfl (by decide +kernel)
  have he := (htree _).mp (.binary rfl
    (.filled rfl (.binary rfl (.filled rfl hx) (.filled rfl hy)))
    (.filled rfl (.binary rfl (.filled rfl (.leaf rfl)) (.filled rfl (.leaf rfl)))))
  rw [htext]
  rw [← he] at hderives
  exact hderives

/-- A call of a function `not` with one argument. -/
def callDraft : Draft :=
  [.node "E" "procedures_callreturn", .node "V" "variables_get", .setField 0 "NAME" "not",
    .setField 1 "VAR" "ready", .setValue 0 "ARG0" 1].foldl (fun d e => Draft.Edit.apply e d) {}

theorem callDraft_reachable : callDraft.Reachable :=
  Draft.reachable_of_edits rfl

theorem callDraft_built : callDraft.toGraph.Built :=
  callDraft_reachable.built rfl

theorem callDraft_isExpression : callDraft.toGraph.IsExpression 0 :=
  callDraft_built.isForest.isExpression (by decide) (by decide)

theorem spells_negation : Language.python.Spells 6 "not(ready)"
    (.unary .negation (.name "ready".toList)) := by
  have hready : isWord "ready".toList = true := by decide
  have hlexes := (Lexicon.lexes_token (L := .python) (Lexicon.token?_word hready) (by simp)).call
    (f := "not".toList) (by decide)
  have hname : Grammar.python.Reads (.expression 8 (.name "ready".toList)) [.word "ready".toList] :=
    .looser (.name (Python.isName_iff.mpr (by decide))) (Nat.zero_le 8)
  have hreads : Grammar.python.Reads (.expression 6 (.unary .negation (.name "ready".toList))) _ :=
    .unary (t := Python.negation) (u := ⟨.negation, 6⟩) rfl (hname.parens.looser (Nat.zero_le 6))
  exact ⟨⟨'n', "ot(ready)".toList, by decide, by decide⟩, _, hlexes, hreads⟩

/-- **A call of a function `not` is generated as a text that Python reads as a negation.** -/
theorem Built.microPython_call_of_not :
    callDraft.toGraph.Built ∧ callDraft.toGraph.IsExpression 0 ∧
      callDraft.toGraph.Denotes .microPython (.block 0)
        (.call "not".toList [.name "ready".toList]) ∧
      Job.play? ⟨callDraft.toGraph, Target.microPython.backend⟩ (Script.generate 0) {} =
        some (.expression "not(ready)" 2, {}) ∧
      ∀ a, Python.Derives "not(ready)" a ↔ a = .unary .negation (.name "ready".toList) := by
  refine ⟨callDraft_built, callDraft_isExpression, ?_, by decide +kernel, ?_⟩
  · have hready : callDraft.toGraph.Denotes .microPython (.block 1) (.name "ready".toList) :=
      denotes_variable rfl (by decide +kernel)
    exact denotes_call rfl rfl (by decide +kernel) rfl hready
  · exact Python.derives_iff (spells_negation.looser (by decide))

end Graph

end BlockCompiler
