import BlockCompiler.Blocks.Expression
import BlockCompiler.Proofs.Expression.Grammar

/-!
# The operator trees of blocks

What an expression block stands for is a tree of operators.  `shape?` says for each type
of block which value slots it takes and what it makes of them, and `Denotes` puts the
shapes of a block and of all blocks in its slots together.  A slot that is not filled has
a tree of its own, fixed by the block.

Nothing here depends on how expressions are written, except for what a language has no
operator for: `Dialect` says what such blocks stand for in a language.
-/

namespace BlockCompiler

/-- What the blocks stand for that languages have different expressions for. -/
structure Dialect where
  truth : Bool → Expression
  power : Expression → Expression → Expression
  milliseconds : Expression
  noArgument : Expression

namespace Expression

/-- The number nought. -/
def zero : Expression :=
  .numeral ['0']

/-- A number as it is written, with or without a minus in front. -/
def signed : List Char → Expression
  | '-' :: ds => .unary .minus (.numeral ds)
  | ds => .numeral ds

end Expression

/-- The text is a decimal literal, with or without a minus in front. -/
def isNumber : List Char → Bool
  | '-' :: ds => isDecimal ds
  | ds => isDecimal ds

/-- The operator of the given name, or else `fallback`. -/
def chosen {α : Type} (named : List (String × α)) (fallback : α) (name : String) : α :=
  (named.lookup name).getD fallback

/-- The names of arithmetic operators. -/
def ArithmeticOp.named : List (String × ArithmeticOp) :=
  [("ADD", .add), ("MINUS", .subtract), ("MULTIPLY", .multiply), ("DIVIDE", .divide),
    ("POWER", .power)]

/-- The names of comparisons. -/
def ComparisonOp.named : List (String × ComparisonOp) :=
  [("EQ", .equal), ("NEQ", .different), ("LT", .less), ("LTE", .lessOrEqual), ("GT", .greater),
    ("GTE", .greaterOrEqual)]

/-- The names of logic operators. -/
def LogicOp.named : List (String × LogicOp) :=
  [("AND", .and), ("OR", .or)]

/-- A value slot, and what it stands for while it is not filled. -/
structure ValueSlot where
  name : String
  unfilled : Expression

/-- What a block makes of its value slots. -/
inductive Shape where
  | leaf (e : Expression)
  | unary (op : UnaryOp) (slot : ValueSlot)
  | binary (op : Expression → Expression → Expression) (left right : ValueSlot)
  | call (function : List Char) (arguments : List ValueSlot)

namespace Dialect

/-- An arithmetic operator on its operands. -/
def arithmetic (d : Dialect) : ArithmeticOp → Expression → Expression → Expression
  | .power => d.power
  | op => .binary (.arithmetic op)

/-- The slots for the arguments of a call. -/
def argumentSlots (d : Dialect) (n : Node) : List ValueSlot :=
  (List.range (n.slotCount ["ARG"])).map fun k => ⟨"ARG" ++ k.repr, d.noArgument⟩

/-- The shape of an expression block. -/
def shape? (d : Dialect) (n : Node) : Option Shape :=
  match n.type with
  | "math_number" => some (.leaf (.signed (Text.trim (n.fieldOr "NUM" "0")).toList))
  | "math_arithmetic" =>
    let op := chosen ArithmeticOp.named .add (n.fieldOr "OP" "ADD")
    some (.binary (d.arithmetic op) ⟨"A", .zero⟩ ⟨"B", .zero⟩)
  | "logic_boolean" => some (.leaf (d.truth (n.flag "BOOL" true)))
  | "logic_compare" =>
    let op := chosen ComparisonOp.named .equal (n.fieldOr "OP" "EQ")
    some (.binary (.binary (.comparison op)) ⟨"A", .zero⟩ ⟨"B", .zero⟩)
  | "logic_operation" =>
    let op := chosen LogicOp.named .and (n.fieldOr "OP" "AND")
    some (.binary (.binary (.logic op)) ⟨"A", d.truth false⟩ ⟨"B", d.truth false⟩)
  | "logic_negate" => some (.unary .negation ⟨"BOOL", d.truth true⟩)
  | "variables_get" => some (.leaf (.name (Blocks.nameField n "VAR" "item").toList))
  | "time_millis" => some (.leaf d.milliseconds)
  | "procedures_callreturn" =>
    some (.call (Blocks.nameField n "NAME" "do_something").toList (d.argumentSlots n))
  | _ => none

end Dialect

/-- Where an expression stands: a block, or a value slot of a node. -/
inductive Site where
  | block (i : NodeId)
  | slot (owner : NodeId) (slot : ValueSlot)

namespace Graph

/-- The tree of a block or slot. -/
inductive Denotes (d : Dialect) (g : Graph) : Site → Expression → Prop
  | filled {o c : NodeId} {slot : ValueSlot} {e : Expression}
      (hc : (g.node o).values.get? slot.name = some c) (h : Denotes d g (.block c) e) :
      Denotes d g (.slot o slot) e
  | unfilled {o : NodeId} {slot : ValueSlot} (hc : (g.node o).values.get? slot.name = none) :
      Denotes d g (.slot o slot) slot.unfilled
  | leaf {i : NodeId} {e : Expression} (hi : d.shape? (g.node i) = some (.leaf e)) :
      Denotes d g (.block i) e
  | unary {i : NodeId} {op : UnaryOp} {slot : ValueSlot} {e : Expression}
      (hi : d.shape? (g.node i) = some (.unary op slot)) (h : Denotes d g (.slot i slot) e) :
      Denotes d g (.block i) (.unary op e)
  | binary {i : NodeId} {op : Expression → Expression → Expression} {left right : ValueSlot}
      {a b : Expression} (hi : d.shape? (g.node i) = some (.binary op left right))
      (ha : Denotes d g (.slot i left) a) (hb : Denotes d g (.slot i right) b) :
      Denotes d g (.block i) (op a b)
  | call {i : NodeId} {f : List Char} {slots : List ValueSlot} {arg : ValueSlot → Expression}
      (hi : d.shape? (g.node i) = some (.call f slots))
      (h : ∀ slot ∈ slots, Denotes d g (.slot i slot) (arg slot)) :
      Denotes d g (.block i) (.call f (slots.map arg))

/-- A block or slot has at most one tree. -/
theorem Denotes.unique {d : Dialect} {g : Graph} {site : Site} {e e' : Expression}
    (h : g.Denotes d site e) (h' : g.Denotes d site e') : e = e' := by
  -- The shape of a block decides by which rule it has a tree, so the two derivations go in step.
  induction h generalizing e' with
  | filled hc _ ih =>
    cases h' with
    | filled hc' h' =>
      rw [hc] at hc'
      cases hc'
      exact ih h'
    | unfilled hc' =>
      rw [hc] at hc'
      cases hc'
  | unfilled hc =>
    cases h' with
    | filled hc' _ =>
      rw [hc] at hc'
      cases hc'
    | unfilled _ => rfl
  | leaf hi =>
    cases h' with
    | leaf hi' =>
      rw [hi] at hi'
      cases hi'
      rfl
    | unary hi' | binary hi' | call hi' =>
      rw [hi] at hi'
      cases hi'
  | unary hi _ ih =>
    cases h' with
    | unary hi' h' =>
      rw [hi] at hi'
      cases hi'
      rw [ih h']
    | leaf hi' | binary hi' | call hi' =>
      rw [hi] at hi'
      cases hi'
  | binary hi _ _ iha ihb =>
    cases h' with
    | binary hi' ha' hb' =>
      rw [hi] at hi'
      cases hi'
      rw [iha ha', ihb hb']
    | leaf hi' | unary hi' | call hi' =>
      rw [hi] at hi'
      cases hi'
  | call hi _ ih =>
    cases h' with
    | call hi' h' =>
      rw [hi] at hi'
      cases hi'
      rw [List.map_congr_left fun slot hslot => ih slot hslot (h' slot hslot)]
    | leaf hi' | unary hi' | binary hi' =>
      rw [hi] at hi'
      cases hi'

end Graph

end BlockCompiler
