import BlockCompiler.Proofs.Expression.Rendering

/-!
# Expression blocks

Expression blocks are generated in the same way for every target, apart from operators
and words.  `Rendition.Serves` lists what a target has to provide: its signs and orders
agree with the grammar of its language, and its words spell what they stand for.  Then
every expression block is generated as a text that spells the tree of the block
(`Serves.settles`), by induction on how high the block stands above what is in its slots.

The names of variables and functions are words, whatever their author has written, but
nothing keeps them off the words of the language.  `Graph.AvoidsKeywords` says that the
author has done so.
-/

namespace BlockCompiler

open Relation

/-- The types of expression blocks. -/
def expressionTypes : List String :=
  ["math_number", "math_arithmetic", "logic_boolean", "logic_compare", "logic_operation",
    "logic_negate", "variables_get", "time_millis", "procedures_callreturn"]

namespace Graph

variable {g : Graph}

/-- A value slot of the node at `a` holds the node at `b`. -/
def Supplies (g : Graph) (a b : NodeId) : Prop :=
  ∃ slot, (g.node a).values.get? slot = some b

/-- The blocks that are reached through value slots are expression blocks, and the numbers among
them are decimal literals, with or without a minus in front. -/
def IsExpression (g : Graph) (i : NodeId) : Prop :=
  ∀ k, ReflTransGen g.Supplies i k → (g.node k).type ∈ expressionTypes ∧
    ((g.node k).type = "math_number" →
      isNumber (Text.trim ((g.node k).fieldOr "NUM" "0")).toList = true)

/-- No variable that is read and no function that is called has a name among the words. -/
def AvoidsKeywords (g : Graph) (keywords : List (List Char)) (i : NodeId) : Prop :=
  ∀ k, ReflTransGen g.Supplies i k →
    ((g.node k).type = "variables_get" →
      (Blocks.nameField (g.node k) "VAR" "item").toList ∉ keywords) ∧
    ((g.node k).type = "procedures_callreturn" →
      (Blocks.nameField (g.node k) "NAME" "do_something").toList ∉ keywords)

theorem IsExpression.supplied {i c : NodeId} (h : g.IsExpression i) (hc : g.Supplies i c) :
    g.IsExpression c :=
  fun k hk => h k (.head hc hk)

theorem IsForest.height_lt_of_supplies (h : g.IsForest) {i c : NodeId} (hc : g.Supplies i c) :
    g.height c < g.height i := by
  obtain ⟨slot, hslot⟩ := hc
  exact h.height_lt (.single ⟨.value slot, hslot⟩)

theorem IsForest.lt_size_of_supplies (h : g.IsForest) {i k : NodeId} (hi : i < g.size)
    (hk : ReflTransGen g.Supplies i k) : k < g.size := by
  rcases hk.cases_tail with rfl | ⟨a, -, slot, hslot⟩
  · exact hi
  · exact (h.within a (.value slot) k hslot).2

theorem IsForest.isExpression (h : g.IsForest) {i : NodeId} (hi : i < g.size)
    (hall : ∀ k < g.size, (g.node k).type ∈ expressionTypes ∧ ((g.node k).type = "math_number" →
      isNumber (Text.trim ((g.node k).fieldOr "NUM" "0")).toList = true)) : g.IsExpression i :=
  fun k hk => hall k (h.lt_size_of_supplies hi hk)

end Graph

namespace Rendition

variable {R : Rendition} {t : Target}

/-- What stands for a negation spells it. -/
def WritesNegation (R : Rendition) (t : Target) : Prop :=
  ∃ m n, R.Fits (t.order .negation) m ∧ (t.order .negation, n) ∈ R.levels ∧
    ∀ text e, R.language.Spells m text e →
      R.language.Spells n (t.negationSign ++ text) (.unary .negation e)

/-- The code of an arithmetic operator spells what the operator makes of its operands, if these are
generated as their trees. -/
def WritesArithmetic (R : Rendition) (t : Target) : Prop :=
  ∀ (j : Job) (o : NodeId) (op : ArithmeticOp), R.SettlesSlots j o →
    ∃ a b text order n, j.graph.Denotes R.dialect (.slot o ⟨"A", .zero⟩) a ∧
      j.graph.Denotes R.dialect (.slot o ⟨"B", .zero⟩) b ∧
      j.Yields (Blocks.applyArithmetic t j (j.node o) op) (.expression text order) ∧
      (order, n) ∈ R.levels ∧ R.language.Spells n text (R.dialect.arithmetic op a b)

/-- The signs, orders and words of the target agree with the rendition. -/
structure Serves (R : Rendition) (t : Target) : Prop where
  atomic : (Order.atomic, 0) ∈ R.levels
  call : (t.order .call, 0) ∈ R.levels
  minus : R.WritesMinus (t.order .sign)
  arithmetic : R.WritesArithmetic t
  comparison : ∀ op : ComparisonOp, R.Writes (.comparison op) op.sign (t.order op.binding)
  logic : ∀ op : LogicOp, R.Writes (.logic op) (op.sign t) (t.order op.binding)
  negation : R.WritesNegation t
  truth : ∀ b, R.language.Spells 0 (t.truth b) (R.dialect.truth b)
  noArgument : R.language.Spells 0 t.noArgument R.dialect.noArgument
  milliseconds : ∃ text, R.language.Spells 0 text R.dialect.milliseconds ∧
    ∀ j : Job, j.Yields (Blocks.milliseconds t) (.expression text (t.order .call))

/-- The names that the block gives are names in the language. -/
structure Admits (R : Rendition) (n : Node) : Prop where
  ofVariable : n.type = "variables_get" →
    R.language.grammar.IsName (Blocks.nameField n "VAR" "item").toList
  ofFunction : n.type = "procedures_callreturn" →
    R.language.grammar.IsName (Blocks.nameField n "NAME" "do_something").toList

/-- Where only keywords are no names, a block that avoids them gives names. -/
theorem admits_of_avoidsKeywords {keywords : List (List Char)}
    (hnames : ∀ w, w ∉ keywords → R.language.grammar.IsName w) {g : Graph} {i k : NodeId}
    (h : g.AvoidsKeywords keywords i) (hk : ReflTransGen g.Supplies i k) :
    R.Admits (g.node k) := by
  obtain ⟨hvariable, hfunction⟩ := h k hk
  exact ⟨fun htype => hnames _ (hvariable htype), fun htype => hnames _ (hfunction htype)⟩

theorem spells_zero (l : Language) : l.Spells 0 "0" .zero :=
  .numeral (by decide) rfl

variable {g : Graph} {i : NodeId}

theorem yields_of_type (h : g.IsForest) {type : String} (htype : (g.node i).type = type)
    (kind : BlockKind) (hkind : (type, kind) ∈ sharedTypes) {c : Code}
    (hi : Job.Yields ⟨g, t.backend⟩ (Generator.script ⟨t, kind⟩ ⟨g, t.backend⟩ i) c) :
    Job.Yields ⟨g, t.backend⟩ (Script.generate i) c := by
  have hmem : ((g.node i).type, kind) ∈ t.typeKinds := by
    rw [htype]
    exact List.mem_cons_of_mem _ hkind
  exact Job.yields_generate_of_mem h hmem hi

namespace Serves

variable (hR : R.Serves t) (h : g.IsForest)

include hR h

theorem settles_number (htype : (g.node i).type = "math_number")
    (hnumber : isNumber (Text.trim ((g.node i).fieldOr "NUM" "0")).toList = true) :
    R.Settles ⟨g, t.backend⟩ i := by
  obtain ⟨text, order, level, hcode, hlevel, hspells⟩ := exists_number hR.minus hR.atomic hnumber
  refine ⟨_, .leaf (by simp only [Dialect.shape?, htype]), text, order, level, ?_, hlevel, hspells⟩
  refine yields_of_type h htype .number (by decide) ?_
  rw [← hcode]
  exact Job.yields_pure _

theorem settles_boolean (htype : (g.node i).type = "logic_boolean") :
    R.Settles ⟨g, t.backend⟩ i :=
  ⟨_, .leaf (by simp only [Dialect.shape?, htype]; rfl), _, _, 0,
    yields_of_type h htype .boolean (by decide) (Job.yields_pure _), hR.atomic, hR.truth _⟩

theorem settles_variable (htype : (g.node i).type = "variables_get") (hname : R.Admits (g.node i)) :
    R.Settles ⟨g, t.backend⟩ i :=
  ⟨_, .leaf (by simp only [Dialect.shape?, htype]), _, _, 0,
    yields_of_type h htype .variableValue (by decide) (Job.yields_pure _), hR.atomic,
    .name (isWord_nameField _ _ (by decide)) (hname.ofVariable htype) rfl⟩

theorem settles_milliseconds (htype : (g.node i).type = "time_millis") :
    R.Settles ⟨g, t.backend⟩ i := by
  obtain ⟨text, hspells, hyields⟩ := hR.milliseconds
  exact ⟨_, .leaf (by simp only [Dialect.shape?, htype]), text, _, 0,
    yields_of_type h htype .milliseconds (by decide) (hyields _), hR.call, hspells⟩

theorem settles_comparison (htype : (g.node i).type = "logic_compare")
    (hslots : R.SettlesSlots ⟨g, t.backend⟩ i) : R.Settles ⟨g, t.backend⟩ i := by
  have hshape : R.dialect.shape? (g.node i) = some (.binary
      (.binary (.comparison (ComparisonOp.ofField ((g.node i).fieldOr "OP" "EQ"))))
        ⟨"A", .zero⟩ ⟨"B", .zero⟩) := by
    simp only [Dialect.shape?, htype, chosen_comparison]
  obtain ⟨a, b, text, n, ha, hb, hcode, hlevel, hspells⟩ :=
    exists_binary hslots (spells_zero _) (hR.comparison _)
  exact ⟨_, .binary hshape ha hb, text, _, n,
    yields_of_type h htype .comparison (by decide) hcode, hlevel, hspells⟩

theorem settles_logic (htype : (g.node i).type = "logic_operation")
    (hslots : R.SettlesSlots ⟨g, t.backend⟩ i) : R.Settles ⟨g, t.backend⟩ i := by
  have hshape : R.dialect.shape? (g.node i) = some (.binary
      (.binary (.logic (LogicOp.ofField ((g.node i).fieldOr "OP" "AND"))))
        ⟨"A", R.dialect.truth false⟩ ⟨"B", R.dialect.truth false⟩) := by
    simp only [Dialect.shape?, htype, chosen_logic]
  obtain ⟨a, b, text, n, ha, hb, hcode, hlevel, hspells⟩ :=
    exists_binary hslots (hR.truth false) (hR.logic _)
  exact ⟨_, .binary hshape ha hb, text, _, n,
    yields_of_type h htype .logic (by decide) hcode, hlevel, hspells⟩

omit hR h in
theorem yields_arithmetic {j : Job} {n : Node} {c : Code}
    (hop : j.Yields (Blocks.applyArithmetic t j n
      (chosen ArithmeticOp.named .add (n.fieldOr "OP" "ADD"))) c) :
    j.Yields (Blocks.arithmetic t j n) c := by
  rw [chosen_arithmetic] at hop
  simp only [Blocks.arithmetic]
  cases hfield : ArithmeticOp.ofField? (n.fieldOr "OP" "ADD") with
  | some op => simpa [hfield] using hop
  | none =>
    rw [hfield] at hop
    exact (Job.yields_notice _).bind hop

theorem settles_arithmetic (htype : (g.node i).type = "math_arithmetic")
    (hslots : R.SettlesSlots ⟨g, t.backend⟩ i) : R.Settles ⟨g, t.backend⟩ i := by
  have hshape : R.dialect.shape? (g.node i) = some (.binary (R.dialect.arithmetic
      (chosen ArithmeticOp.named .add ((g.node i).fieldOr "OP" "ADD"))) ⟨"A", .zero⟩ ⟨"B", .zero⟩) := by
    simp only [Dialect.shape?, htype]
  obtain ⟨a, b, text, order, n, ha, hb, hcode, hlevel, hspells⟩ := hR.arithmetic _ i
    (chosen ArithmeticOp.named .add ((g.node i).fieldOr "OP" "ADD")) hslots
  exact ⟨_, .binary hshape ha hb, text, order, n,
    yields_of_type h htype .arithmetic (by decide) (yields_arithmetic hcode), hlevel, hspells⟩

theorem settles_negation (htype : (g.node i).type = "logic_negate")
    (hslots : R.SettlesSlots ⟨g, t.backend⟩ i) : R.Settles ⟨g, t.backend⟩ i := by
  obtain ⟨m, n, hfits, hlevel, hwrites⟩ := hR.negation
  obtain ⟨e, text, hdenotes, hyields, hspells⟩ := exists_slot hslots (hR.truth true) hfits "BOOL"
  exact ⟨_, .unary (by simp only [Dialect.shape?, htype]) hdenotes, _, _, n,
    yields_of_type h htype .negation (by decide) (hyields.bind (Job.yields_pure _)), hlevel,
    hwrites text e hspells⟩

theorem settles_call (htype : (g.node i).type = "procedures_callreturn")
    (hname : R.Admits (g.node i)) (hslots : R.SettlesSlots ⟨g, t.backend⟩ i) :
    R.Settles ⟨g, t.backend⟩ i := by
  obtain ⟨arg, text, hargs, hyields, hspells⟩ :=
    exists_call (t := t) hslots hR.noArgument (hname.ofFunction htype)
  exact ⟨_, .call (by simp only [Dialect.shape?, htype]; rfl) hargs, text, _, 0,
    yields_of_type h htype .callExpression (by decide) (hyields.bind (Job.yields_pure _)), hR.call,
    hspells⟩

/-- **Every expression block is generated as its tree.** -/
theorem settles (hi : g.IsExpression i)
    (hnames : ∀ k, ReflTransGen g.Supplies i k → R.Admits (g.node k)) :
    R.Settles ⟨g, t.backend⟩ i := by
  -- What stands in the slots of a block is lower than the block.
  induction hn : g.height i using Nat.strongRecOn generalizing i with
  | ind n ih =>
    have hslots : R.SettlesSlots ⟨g, t.backend⟩ i := by
      intro name c hc
      have hsupplies : g.Supplies i c := ⟨name, hc⟩
      exact ih _ (hn ▸ h.height_lt_of_supplies hsupplies) (hi.supplied hsupplies)
        (fun k hk => hnames k (.head hsupplies hk)) rfl
    obtain ⟨htype, hnumber⟩ := hi i .refl
    simp only [expressionTypes, List.mem_cons, List.not_mem_nil, or_false] at htype
    rcases htype with htype | htype | htype | htype | htype | htype | htype | htype | htype
    · exact hR.settles_number h htype (hnumber htype)
    · exact hR.settles_arithmetic h htype hslots
    · exact hR.settles_boolean h htype
    · exact hR.settles_comparison h htype hslots
    · exact hR.settles_logic h htype hslots
    · exact hR.settles_negation h htype hslots
    · exact hR.settles_variable h htype (hnames i .refl)
    · exact hR.settles_milliseconds h htype
    · exact hR.settles_call h htype (hnames i .refl) hslots

end Serves

end Rendition

/-! ## The trees of variables and calls -/

namespace Graph

variable {g : Graph} {i : NodeId} {d : Dialect}

/-- A variable is the name that was made for it. -/
theorem denotes_variable (htype : (g.node i).type = "variables_get") {name : String}
    (hname : Blocks.nameField (g.node i) "VAR" "item" = name) :
    g.Denotes d (.block i) (.name name.toList) := by
  refine .leaf ?_
  simp only [Dialect.shape?, htype, hname]

/-- A block with one argument is a call, whatever its function is called. -/
theorem denotes_call (htype : (g.node i).type = "procedures_callreturn")
    (hcount : (g.node i).slotCount ["ARG"] = 1) {function : String}
    (hname : Blocks.nameField (g.node i) "NAME" "do_something" = function) {c : NodeId}
    (hc : (g.node i).values.get? "ARG0" = some c) {e : Expression}
    (he : g.Denotes d (.block c) e) : g.Denotes d (.block i) (.call function.toList [e]) := by
  have hshape : d.shape? (g.node i) =
      some (.call function.toList [⟨"ARG0", d.noArgument⟩]) := by
    simp only [Dialect.shape?, htype, hname, Dialect.argumentSlots, hcount]
    rfl
  have hargument : ∀ slot ∈ [⟨"ARG0", d.noArgument⟩], g.Denotes d (.slot i slot) e := by
    intro slot hslot
    cases List.mem_singleton.mp hslot
    exact .filled hc he
  exact Denotes.call hshape hargument

end Graph

end BlockCompiler
