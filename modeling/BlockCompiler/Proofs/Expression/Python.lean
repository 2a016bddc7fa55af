import BlockCompiler.Proofs.Expression.Spelling

/-!
# The expressions of Python

`Python.Reads` follows the expression grammar of Python from `or` down to calls and
brackets.  Unlike the operators of a `Grammar`, comparisons chain there: `a < b < c` is
one comparison of three operands, and neither `(a < b) < c` nor `a < (b < c)`.

`Grammar.python` has the same operators, but its comparisons take two operands and no
comparison without brackets stands in another one.  What it reads, Python reads as the
same tree, and as no other (`Python.derives_iff`): going over the tokens with a mark for
each open bracket, set by a comparison and cleared by what is looser, no token of such a
text meets a comparison where one has been read already, and a chain would.
-/

namespace BlockCompiler

open Token (opening closing comma)

/-- The signs of Python, the first character of `!=`, and the mark that begins a comment. -/
def Lexicon.python : Lexicon where
  signs := [
    ['+'], ['-'], ['*'], ['*', '*'], ['/'], ['/', '/'], ['%'], ['@'], ['<', '<'], ['>', '>'], ['&'],
    ['|'], ['^'], ['~'], [':', '='], ['<'], ['>'], ['<', '='], ['>', '='], ['=', '='], ['!'],
    ['!', '='], ['('], [')'], ['['], [']'], ['\x7b'], ['\x7d'], [','], [':'], ['.'], [';'], ['='],
    ['-', '>'], ['+', '='], ['-', '='], ['*', '='], ['/', '='], ['/', '/', '='], ['%', '='],
    ['@', '='], ['&', '='], ['|', '='], ['^', '='], ['>', '>', '='], ['<', '<', '='],
    ['*', '*', '='], ['#']]
  plain := List.forall_iff_forall_mem.mp (by decide)
  apart := by
    simp only [← List.forall_iff_forall_mem]
    decide
  dotted := true

namespace Python

/-- The sign of a power. -/
def power : Token := .sign ['*', '*']

/-- A minus. -/
def minus : Token := .sign ['-']

/-- The word for a negation. -/
def negation : Token := .word ['n', 'o', 't']

/-- The word for a conjunction. -/
def conjunction : Token := .word ['a', 'n', 'd']

/-- The word for a disjunction. -/
def disjunction : Token := .word ['o', 'r']

/-- The operators that bind like a product. -/
def products : List (Token × ArithmeticOp) :=
  [(.sign ['*'], .multiply), (.sign ['/'], .divide)]

/-- The operators that bind like a sum. -/
def sums : List (Token × ArithmeticOp) :=
  [(.sign ['+'], .add), (minus, .subtract)]

/-- The comparisons. -/
def comparisons : List (Token × ComparisonOp) :=
  [(.sign ['=', '='], .equal), (.sign ['!', '='], .different), (.sign ['<'], .less),
    (.sign ['<', '='], .lessOrEqual), (.sign ['>'], .greater), (.sign ['>', '='], .greaterOrEqual)]

/-- The words that are no names.  The constants `True`, `False` and `None` stand where names do and
are not among them. -/
def keywords : List (List Char) :=
  ["and", "as", "assert", "async", "await", "break", "class", "continue", "def", "del", "elif",
    "else", "except", "finally", "for", "from", "global", "if", "import", "in", "is", "lambda",
    "nonlocal", "not", "or", "pass", "raise", "return", "try", "while", "with", "yield"].map
      String.toList

/-- Expressions as trees.  A comparison has any number of operators, each of which stands before
one more operand. -/
inductive Tree where
  | numeral (spelling : List Char)
  | name (word : List Char)
  | call (function : List Char) (arguments : List Tree)
  | unary (op : UnaryOp) (operand : Tree)
  | arithmetic (op : ArithmeticOp) (left right : Tree)
  | comparison (first : Tree) (ops : List ComparisonOp) (further : List Tree)
  | logic (op : LogicOp) (left right : Tree)

/-- What a list of tokens may be read as. -/
inductive Phrase where
  /-- An expression of a level. -/
  | expression (level : Nat) (t : Tree)
  /-- The arguments of a call, at least one. -/
  | arguments (ts : List Tree)
  /-- The operators of a comparison with the operands after them, at least one. -/
  | comparisons (ops : List ComparisonOp) (ts : List Tree)

/-- The tokens can be read as the phrase.  The levels are those of primaries, powers, signs,
products, sums, comparisons, negations, conjunctions and disjunctions, from 0 to 8. -/
inductive Reads : Phrase → List Token → Prop
  | numeral {ds : List Char} (h : isDecimal ds = true) :
      Reads (.expression 0 (.numeral ds)) [.numeral ds]
  | name {w : List Char} (h : w ∉ keywords) : Reads (.expression 0 (.name w)) [.word w]
  | noArguments {f : List Char} (h : f ∉ keywords) :
      Reads (.expression 0 (.call f [])) [.word f, opening, closing]
  | call {f : List Char} {as : List Tree} {ts : List Token} (h : f ∉ keywords)
      (hargs : Reads (.arguments as) ts) :
      Reads (.expression 0 (.call f as)) (.word f :: opening :: (ts ++ [closing]))
  | parens {a : Tree} {ts : List Token} (h : Reads (.expression 8 a) ts) :
      Reads (.expression 0 a) (opening :: (ts ++ [closing]))
  | power {a b : Tree} {ta tb : List Token} (ha : Reads (.expression 0 a) ta)
      (hb : Reads (.expression 2 b) tb) :
      Reads (.expression 1 (.arithmetic .power a b)) (ta ++ power :: tb)
  | minus {a : Tree} {ts : List Token} (h : Reads (.expression 2 a) ts) :
      Reads (.expression 2 (.unary .minus a)) (minus :: ts)
  | product {t : Token} {op : ArithmeticOp} {a b : Tree} {ta tb : List Token}
      (ht : (t, op) ∈ products) (ha : Reads (.expression 3 a) ta)
      (hb : Reads (.expression 2 b) tb) :
      Reads (.expression 3 (.arithmetic op a b)) (ta ++ t :: tb)
  | sum {t : Token} {op : ArithmeticOp} {a b : Tree} {ta tb : List Token}
      (ht : (t, op) ∈ sums) (ha : Reads (.expression 4 a) ta) (hb : Reads (.expression 3 b) tb) :
      Reads (.expression 4 (.arithmetic op a b)) (ta ++ t :: tb)
  | comparison {a : Tree} {ops : List ComparisonOp} {as : List Tree} {ta ts : List Token}
      (ha : Reads (.expression 4 a) ta) (hs : Reads (.comparisons ops as) ts) :
      Reads (.expression 5 (.comparison a ops as)) (ta ++ ts)
  | negation {a : Tree} {ts : List Token} (h : Reads (.expression 6 a) ts) :
      Reads (.expression 6 (.unary .negation a)) (negation :: ts)
  | conjunction {a b : Tree} {ta tb : List Token} (ha : Reads (.expression 7 a) ta)
      (hb : Reads (.expression 6 b) tb) :
      Reads (.expression 7 (.logic .and a b)) (ta ++ conjunction :: tb)
  | disjunction {a b : Tree} {ta tb : List Token} (ha : Reads (.expression 8 a) ta)
      (hb : Reads (.expression 7 b) tb) :
      Reads (.expression 8 (.logic .or a b)) (ta ++ disjunction :: tb)
  | looser {n m : Nat} {a : Tree} {ts : List Token} (h : Reads (.expression n a) ts)
      (hnm : n ≤ m) : Reads (.expression m a) ts
  | last {a : Tree} {ts : List Token} (h : Reads (.expression 8 a) ts) :
      Reads (.arguments [a]) ts
  | further {a : Tree} {as : List Tree} {ts us : List Token} (h : Reads (.expression 8 a) ts)
      (hs : Reads (.arguments as) us) : Reads (.arguments (a :: as)) (ts ++ comma :: us)
  | compared {t : Token} {op : ComparisonOp} {b : Tree} {tb : List Token}
      (ht : (t, op) ∈ comparisons) (hb : Reads (.expression 4 b) tb) :
      Reads (.comparisons [op] [b]) (t :: tb)
  | chained {t : Token} {op : ComparisonOp} {b : Tree} {ops : List ComparisonOp} {bs : List Tree}
      {tb ts : List Token} (ht : (t, op) ∈ comparisons) (hb : Reads (.expression 4 b) tb)
      (hs : Reads (.comparisons ops bs) ts) :
      Reads (.comparisons (op :: ops) (b :: bs)) (t :: (tb ++ ts))

/-- The text can be read as the tree. -/
def Derives (text : String) (t : Tree) : Prop :=
  ∃ ts, Lexicon.python.scan none text.toList = some ts ∧ Reads (.expression 8 t) ts

/-! ## Comparisons of two operands -/

namespace Tree

mutual

/-- The tree of an expression, in which every comparison has two operands. -/
def ofExpression : Expression → Tree
  | .numeral ds => .numeral ds
  | .name w => .name w
  | .call f es => .call f (ofExpressions es)
  | .unary op e => .unary op (ofExpression e)
  | .binary (.arithmetic op) a b => .arithmetic op (ofExpression a) (ofExpression b)
  | .binary (.comparison op) a b => .comparison (ofExpression a) [op] [ofExpression b]
  | .binary (.logic op) a b => .logic op (ofExpression a) (ofExpression b)

/-- The trees of expressions. -/
def ofExpressions : List Expression → List Tree
  | [] => []
  | e :: es => ofExpression e :: ofExpressions es

end

mutual

/-- No comparison in the tree has more than two operands. -/
def unchained : Tree → Bool
  | .numeral _ | .name _ => true
  | .call _ as => allUnchained as
  | .unary _ a => a.unchained
  | .arithmetic _ a b | .logic _ a b => a.unchained && b.unchained
  | .comparison a ops as => ops.length == 1 && a.unchained && allUnchained as

/-- No comparison in the trees has more than two operands. -/
def allUnchained : List Tree → Bool
  | [] => true
  | a :: as => a.unchained && allUnchained as

end

mutual

/-- Comparisons of two operands are no chains. -/
theorem unchained_ofExpression : ∀ e : Expression, (ofExpression e).unchained = true
  | .numeral _ | .name _ => rfl
  | .call _ es => allUnchained_ofExpressions es
  | .unary _ e => unchained_ofExpression e
  | .binary op a b => by
    have ha := unchained_ofExpression a
    have hb := unchained_ofExpression b
    cases op <;> simp [ofExpression, unchained, allUnchained, ha, hb]

theorem allUnchained_ofExpressions : ∀ es : List Expression, allUnchained (ofExpressions es) = true
  | [] => rfl
  | e :: es => by
    have he := unchained_ofExpression e
    have hes := allUnchained_ofExpressions es
    simp [ofExpressions, allUnchained, he, hes]

end

end Tree

end Python

/-- The operators of Python, with comparisons that take two operands. -/
def Grammar.python : Grammar where
  unary := [(Python.minus, ⟨.minus, 2⟩), (Python.negation, ⟨.negation, 6⟩)]
  binary :=
    (Python.power, ⟨.arithmetic .power, 1, 0, 2⟩) ::
    (Python.conjunction, .leftward (.logic .and) 7) ::
    (Python.disjunction, .leftward (.logic .or) 8) ::
    (Python.products.map (Prod.map id fun op => .leftward (.arithmetic op) 3) ++
      (Python.sums.map (Prod.map id fun op => .leftward (.arithmetic op) 4) ++
        Python.comparisons.map (Prod.map id fun op => ⟨.comparison op, 5, 4, 4⟩)))
  loosest := 8
  brackets := by decide
  numerals := fun _ => rfl
  left_le := by decide
  right_le := by decide
  right_le_left := by decide
  unary_keeps := by decide
  binary_keeps := by decide
  reserved := Python.keywords

/-- The expressions of Python without chains. -/
def Language.python : Language where
  lexicon := .python
  grammar := .python
  unary := by decide
  binary := by decide

namespace Python

/-- A name is none of the words for operators. -/
theorem ne_operator {w : List Char} (h : w ∉ keywords) :
    w ≠ ['n', 'o', 't'] ∧ w ≠ ['a', 'n', 'd'] ∧ w ≠ ['o', 'r'] := by
  refine ⟨?_, ?_, ?_⟩ <;>
  · rintro rfl
    exact h (by decide)

theorem isName_iff {w : List Char} : Grammar.python.IsName w ↔ w ∉ keywords := by
  refine ⟨fun h => h.2.2, fun h => ?_⟩
  obtain ⟨hnot, hand, hor⟩ := ne_operator h
  refine ⟨?_, ?_, h⟩
  · simp [Grammar.python, minus, negation, hnot]
  · simp [Grammar.python, power, conjunction, disjunction, products, sums, comparisons, minus, hand,
      hor]

/-- The two unary operators, with the levels of their operands. -/
theorem unary_cases {t : Token} {u : UnaryRule} (h : Grammar.python.unary.lookup t = some u) :
    t = minus ∧ u = ⟨.minus, 2⟩ ∨ t = negation ∧ u = ⟨.negation, 6⟩ := by
  have hmem := Grammar.mem_of_lookup h
  simpa [Grammar.python] using hmem

/-- The binary operators by level, with the levels of their operands. -/
theorem binary_cases {t : Token} {r : BinaryRule} (h : Grammar.python.binary.lookup t = some r) :
    t = power ∧ r = ⟨.arithmetic .power, 1, 0, 2⟩ ∨
      t = conjunction ∧ r = .leftward (.logic .and) 7 ∨
      t = disjunction ∧ r = .leftward (.logic .or) 8 ∨
      (∃ op, (t, op) ∈ products ∧ r = .leftward (.arithmetic op) 3) ∨
      (∃ op, (t, op) ∈ sums ∧ r = .leftward (.arithmetic op) 4) ∨
      ∃ op, (t, op) ∈ comparisons ∧ r = ⟨.comparison op, 5, 4, 4⟩ := by
  have hmem := Grammar.mem_of_lookup h
  simp only [Grammar.python, List.mem_cons, Prod.mk.injEq, List.mem_append, List.mem_map,
    Prod.exists, Prod.map_apply, id_eq] at hmem
  rcases hmem with hmem | hmem | hmem | ⟨_, op, ht, rfl, rfl⟩ | ⟨_, op, ht, rfl, rfl⟩ |
    ⟨_, op, ht, rfl, rfl⟩
  · exact .inl hmem
  · exact .inr (.inl hmem)
  · exact .inr (.inr (.inl hmem))
  · exact .inr (.inr (.inr (.inl ⟨op, ht, rfl⟩)))
  · exact .inr (.inr (.inr (.inr (.inl ⟨op, ht, rfl⟩))))
  · exact .inr (.inr (.inr (.inr (.inr ⟨op, ht, rfl⟩))))

/-- The phrase with the trees of its expressions. -/
def Phrase.ofGrammar : BlockCompiler.Phrase → Phrase
  | .expression n e => .expression n (.ofExpression e)
  | .arguments es => .arguments (Tree.ofExpressions es)

/-- What the grammar reads, Python reads as the same tree: each rule has a counterpart. -/
theorem reads_of_grammar {phrase : BlockCompiler.Phrase} {ts : List Token}
    (h : Grammar.python.Reads phrase ts) : Reads (.ofGrammar phrase) ts := by
  induction h with
  | numeral h => exact .numeral h
  | name h => exact .name (isName_iff.mp h)
  | noArguments h => exact .noArguments (isName_iff.mp h)
  | call h _ ih => exact .call (isName_iff.mp h) ih
  | parens _ ih => exact .parens ih
  | unary ht _ ih =>
    rcases unary_cases ht with ⟨rfl, rfl⟩ | ⟨rfl, rfl⟩
    · exact .minus ih
    · exact .negation ih
  | binary ht _ _ iha ihb =>
    rcases binary_cases ht with ⟨rfl, rfl⟩ | ⟨rfl, rfl⟩ | ⟨rfl, rfl⟩ | ⟨op, hop, rfl⟩ |
      ⟨op, hop, rfl⟩ | ⟨op, hop, rfl⟩
    · exact .power iha ihb
    · exact .conjunction iha ihb
    · exact .disjunction iha ihb
    · exact .product hop iha ihb
    · exact .sum hop iha ihb
    · exact .comparison iha (.compared hop ihb)
  | looser _ hnm ih => exact .looser ih hnm
  | last _ ih => exact .last ih
  | further _ _ ih ihs => exact .further ih ihs

/-! ## Marks -/

/-- Whether a comparison stands before the next token, inside the innermost bracket and since the
last comma, `not`, `and` or `or`; and the same for the brackets around it.  A second comparison is
not taken. -/
def mark? : List Bool → Token → Option (List Bool)
  | [], _ => none
  | compared :: outer, t =>
    if t = opening then some (false :: compared :: outer)
    else if t = closing then some outer
    else if t ∈ [comma, negation, conjunction, disjunction] then some (false :: outer)
    else if t ∈ comparisons.map Prod.fst then if compared then none else some (true :: outer)
    else some (compared :: outer)

/-- The token leaves the marks alone. -/
def IsPlain (t : Token) : Prop :=
  t ∉ [opening, closing, comma, negation, conjunction, disjunction] ++ comparisons.map Prod.fst

instance (t : Token) : Decidable (IsPlain t) :=
  inferInstanceAs (Decidable (_ ∉ _))

variable {compared : Bool} {outer : List Bool} {t : Token}

theorem mark?_opening : mark? (compared :: outer) opening = some (false :: compared :: outer) := rfl

theorem mark?_closing : mark? (compared :: outer) closing = some outer := rfl

/-- What is looser than a comparison begins a new one. -/
theorem mark?_clear (ht : t ∈ [comma, negation, conjunction, disjunction]) :
    mark? (compared :: outer) t = some (false :: outer) := by
  have hne : t ≠ opening ∧ t ≠ closing := by
    constructor <;>
    · rintro rfl
      exact absurd ht (by decide)
  rw [mark?, if_neg hne.1, if_neg hne.2, if_pos ht]

/-- A comparison sets the mark, and is refused where that is set. -/
theorem mark?_comparison {op : ComparisonOp} (ht : (t, op) ∈ comparisons) :
    mark? (compared :: outer) t = if compared then none else some (true :: outer) := by
  have hmem : t ∈ comparisons.map Prod.fst := List.mem_map.mpr ⟨(t, op), ht, rfl⟩
  have hapart : ∀ t ∈ comparisons.map Prod.fst, t ≠ opening ∧ t ≠ closing ∧
      t ∉ [comma, negation, conjunction, disjunction] := List.forall_iff_forall_mem.mp (by decide)
  obtain ⟨hopen, hclose, hclear⟩ := hapart t hmem
  rw [mark?, if_neg hopen, if_neg hclose, if_neg hclear, if_pos hmem]

theorem mark?_plain (ht : IsPlain t) : mark? (compared :: outer) t = some (compared :: outer) := by
  simp only [IsPlain, List.mem_append, List.mem_cons, List.not_mem_nil, or_false, not_or] at ht
  obtain ⟨⟨hopen, hclose, hcomma, hnot, hand, hor⟩, hcompare⟩ := ht
  rw [mark?, if_neg hopen, if_neg hclose, if_neg (by simp [hcomma, hnot, hand, hor]),
    if_neg hcompare]

theorem isPlain_numeral (ds : List Char) : IsPlain (.numeral ds) := by
  simp [IsPlain, opening, closing, comma, negation, conjunction, disjunction, comparisons]

theorem isPlain_word {w : List Char} (h : w ∉ keywords) : IsPlain (.word w) := by
  obtain ⟨hnot, hand, hor⟩ := ne_operator h
  simp [IsPlain, opening, closing, comma, negation, conjunction, disjunction, comparisons, hnot,
    hand, hor]

theorem isPlain_arithmetic {op : ArithmeticOp} (h : (t, op) ∈ products ++ sums) : IsPlain t := by
  have hall : ∀ p ∈ products ++ sums, IsPlain p.1 := List.forall_iff_forall_mem.mp (by decide)
  exact hall (t, op) h

theorem foldlM_plain (ht : IsPlain t) (ts : List Token) :
    (t :: ts).foldlM mark? (compared :: outer) = ts.foldlM mark? (compared :: outer) := by
  rw [List.foldlM_cons, mark?_plain ht]
  rfl

theorem foldlM_clear (ht : t ∈ [comma, negation, conjunction, disjunction]) (ts : List Token) :
    (t :: ts).foldlM mark? (compared :: outer) = ts.foldlM mark? (false :: outer) := by
  rw [List.foldlM_cons, mark?_clear ht]
  rfl

/-- The marks after a list of tokens are those that the next list begins with. -/
theorem foldlM_append_of_eq {ts us : List Token} {marks marks' : List Bool}
    (h : ts.foldlM mark? marks = some marks') :
    (ts ++ us).foldlM mark? marks = us.foldlM mark? marks' := by
  rw [List.foldlM_append, h]
  rfl

/-- What is in brackets has a mark of its own. -/
theorem foldlM_brackets {ts : List Token} {compared' : Bool}
    (h : ts.foldlM mark? (false :: compared :: outer) = some (compared' :: compared :: outer)) :
    (opening :: (ts ++ [closing])).foldlM mark? (compared :: outer) = some (compared :: outer) := by
  rw [List.foldlM_cons, mark?_opening]
  show (ts ++ [closing]).foldlM mark? (false :: compared :: outer) = some (compared :: outer)
  rw [foldlM_append_of_eq h, List.foldlM_cons, mark?_closing]
  rfl

/-! ## No second comparison is met -/

/-- No token of the phrase meets a second comparison, if none stands before a phrase that may hold
one, and a phrase that binds tighter than comparisons leaves the mark as it is. -/
def Passes : BlockCompiler.Phrase → List Token → Prop
  | .expression n _, ts => ∀ compared outer, (n ≤ 4 ∨ compared = false) → ∃ compared',
      ts.foldlM mark? (compared :: outer) = some (compared' :: outer) ∧ (n ≤ 4 → compared' = compared)
  | .arguments _, ts => ∀ outer, ∃ compared',
      ts.foldlM mark? (false :: outer) = some (compared' :: outer)

namespace Passes

/-- Tokens that leave the marks as they are pass at every level. -/
theorem of_foldlM {n : Nat} {e : Expression} {ts : List Token}
    (h : ∀ compared outer, ts.foldlM mark? (compared :: outer) = some (compared :: outer)) :
    Passes (.expression n e) ts :=
  fun compared outer _ => ⟨compared, h compared outer, fun _ => rfl⟩

/-- An operator that binds tighter than comparisons. -/
theorem binary_plain {n m k : Nat} {e a b : Expression} {ta tb : List Token} (ht : IsPlain t)
    (hn : n ≤ 4) (hm : m ≤ 4) (ha : Passes (.expression n a) ta) (hb : Passes (.expression m b) tb) :
    Passes (.expression k e) (ta ++ t :: tb) := by
  refine of_foldlM fun compared outer => ?_
  obtain ⟨compared₁, hta, hkept₁⟩ := ha compared outer (.inl hn)
  obtain ⟨compared₂, htb, hkept₂⟩ := hb compared outer (.inl hm)
  -- Neither operand holds a comparison of its own, so both leave the mark as they find it.
  rw [hkept₁ hn] at hta
  rw [hkept₂ hm] at htb
  rw [foldlM_append_of_eq hta, foldlM_plain ht, htb]

/-- An operator that binds looser than comparisons. -/
theorem binary_clear {n m k : Nat} {e a b : Expression} {ta tb : List Token}
    (ht : t ∈ [comma, negation, conjunction, disjunction]) (hk : 4 < k)
    (ha : Passes (.expression n a) ta) (hb : Passes (.expression m b) tb) :
    Passes (.expression k e) (ta ++ t :: tb) := by
  rintro compared outer (hle | rfl)
  · omega
  · obtain ⟨compared₁, hta, -⟩ := ha false outer (.inr rfl)
    obtain ⟨compared₂, htb, -⟩ := hb false outer (.inr rfl)
    refine ⟨compared₂, ?_, fun hle => by omega⟩
    rw [foldlM_append_of_eq hta, foldlM_clear ht, htb]

/-- A comparison sets the mark between operands that leave it alone. -/
theorem comparison {op : ComparisonOp} {e a b : Expression} {ta tb : List Token}
    (ht : (t, op) ∈ comparisons) (ha : Passes (.expression 4 a) ta)
    (hb : Passes (.expression 4 b) tb) : Passes (.expression 5 e) (ta ++ t :: tb) := by
  rintro compared outer (hle | rfl)
  · omega
  · obtain ⟨compared₁, hta, hkept⟩ := ha false outer (.inr rfl)
    obtain ⟨compared₂, htb, -⟩ := hb true outer (.inl le_rfl)
    refine ⟨compared₂, ?_, fun hle => by omega⟩
    rw [hkept le_rfl] at hta
    rw [foldlM_append_of_eq hta, List.foldlM_cons, mark?_comparison ht]
    exact htb

/-- A negation clears the mark, so a comparison may come after it. -/
theorem negation {e e' : Expression} {ts : List Token} (h : Passes (.expression 6 e) ts) :
    Passes (.expression 6 e') (Python.negation :: ts) := by
  rintro compared outer -
  obtain ⟨compared', hts, -⟩ := h false outer (.inr rfl)
  refine ⟨compared', ?_, fun hle => by omega⟩
  rw [foldlM_clear (by simp), hts]

theorem minus {e e' : Expression} {ts : List Token} (h : Passes (.expression 2 e) ts) :
    Passes (.expression 2 e') (Python.minus :: ts) := by
  refine of_foldlM fun compared outer => ?_
  obtain ⟨compared', hts, hkept⟩ := h compared outer (.inl (by omega))
  rw [hkept (by omega)] at hts
  rw [foldlM_plain (by decide), hts]

/-- Inside of brackets there is a mark of its own, which is given up with the closing one. -/
theorem parens {n m : Nat} {e e' : Expression} {ts : List Token} (h : Passes (.expression n e) ts) :
    Passes (.expression m e') (opening :: (ts ++ [closing])) := by
  refine of_foldlM fun compared outer => ?_
  obtain ⟨compared', hts, -⟩ := h false (compared :: outer) (.inr rfl)
  exact foldlM_brackets hts

theorem call {n : Nat} {e : Expression} {f : List Char} {es : List Expression} {ts : List Token}
    (hf : f ∉ keywords) (h : Passes (.arguments es) ts) :
    Passes (.expression n e) (.word f :: opening :: (ts ++ [closing])) := by
  refine of_foldlM fun compared outer => ?_
  obtain ⟨compared', hts⟩ := h (compared :: outer)
  rw [foldlM_plain (isPlain_word hf)]
  exact foldlM_brackets hts

theorem noArguments {n : Nat} {e : Expression} {f : List Char} (hf : f ∉ keywords) :
    Passes (.expression n e) [.word f, opening, closing] := by
  refine of_foldlM fun compared outer => ?_
  rw [foldlM_plain (isPlain_word hf)]
  rfl

/-- What passes at a level passes at a looser one, where less is asked of the marks. -/
theorem looser {n m : Nat} {e : Expression} {ts : List Token} (h : Passes (.expression n e) ts)
    (hnm : n ≤ m) : Passes (.expression m e) ts := by
  intro compared outer hbefore
  obtain ⟨compared', hts, hkept⟩ := h compared outer (hbefore.imp_left hnm.trans)
  exact ⟨compared', hts, fun hle => hkept (hnm.trans hle)⟩

theorem last {n : Nat} {e : Expression} {es : List Expression} {ts : List Token}
    (h : Passes (.expression n e) ts) : Passes (.arguments es) ts := by
  intro outer
  obtain ⟨compared', hts, -⟩ := h false outer (.inr rfl)
  exact ⟨compared', hts⟩

/-- A comma clears the mark for the next argument. -/
theorem further {n : Nat} {e : Expression} {es es' : List Expression} {ts us : List Token}
    (h : Passes (.expression n e) ts) (hs : Passes (.arguments es) us) :
    Passes (.arguments es') (ts ++ comma :: us) := by
  intro outer
  obtain ⟨compared', hts, -⟩ := h false outer (.inr rfl)
  obtain ⟨compared'', hus⟩ := hs outer
  refine ⟨compared'', ?_⟩
  rw [foldlM_append_of_eq hts, foldlM_clear (by simp), hus]

end Passes

/-- What the grammar reads meets no second comparison. -/
theorem passes_of_grammar {phrase : BlockCompiler.Phrase} {ts : List Token}
    (h : Grammar.python.Reads phrase ts) : Passes phrase ts := by
  induction h with
  | numeral _ => exact .of_foldlM fun compared outer => foldlM_plain (isPlain_numeral _) []
  | name h => exact .of_foldlM fun compared outer => foldlM_plain (isPlain_word (isName_iff.mp h)) []
  | noArguments h => exact .noArguments (isName_iff.mp h)
  | call h _ ih => exact .call (isName_iff.mp h) ih
  | parens _ ih => exact .parens ih
  | unary ht _ ih =>
    rcases unary_cases ht with ⟨rfl, rfl⟩ | ⟨rfl, rfl⟩
    · exact .minus ih
    · exact .negation ih
  | binary ht _ _ iha ihb =>
    -- One case for each group of operators; only comparisons set the mark.
    rcases binary_cases ht with ⟨rfl, rfl⟩ | ⟨rfl, rfl⟩ | ⟨rfl, rfl⟩ | ⟨op, hop, rfl⟩ |
      ⟨op, hop, rfl⟩ | ⟨op, hop, rfl⟩
    · exact .binary_plain (n := 0) (m := 2) (by decide) (by decide) (by decide) iha ihb
    · exact .binary_clear (by decide) (by decide) iha ihb
    · exact .binary_clear (by decide) (by decide) iha ihb
    · exact .binary_plain (n := 3) (m := 2) (isPlain_arithmetic (List.mem_append_left _ hop))
        (by decide) (by decide) iha ihb
    · exact .binary_plain (n := 4) (m := 3) (isPlain_arithmetic (List.mem_append_right _ hop))
        (by decide) (by decide) iha ihb
    · exact .comparison hop iha ihb
  | looser _ hnm ih => exact .looser ih hnm
  | last _ ih => exact .last ih
  | further _ _ ih ihs => exact .further ih ihs

/-! ## What meets no second comparison is no chain -/

/-- The levels of the operators, looked up the other way round. -/
theorem lookup_product {op : ArithmeticOp} (h : (t, op) ∈ products) :
    Grammar.python.binary.lookup t = some (.leftward (.arithmetic op) 3) := by
  have hall : ∀ p ∈ products,
      Grammar.python.binary.lookup p.1 = some (.leftward (.arithmetic p.2) 3) :=
    List.forall_iff_forall_mem.mp (by decide)
  exact hall (t, op) h

theorem lookup_sum {op : ArithmeticOp} (h : (t, op) ∈ sums) :
    Grammar.python.binary.lookup t = some (.leftward (.arithmetic op) 4) := by
  have hall : ∀ p ∈ sums, Grammar.python.binary.lookup p.1 = some (.leftward (.arithmetic p.2) 4) :=
    List.forall_iff_forall_mem.mp (by decide)
  exact hall (t, op) h

theorem lookup_comparison {op : ComparisonOp} (h : (t, op) ∈ comparisons) :
    Grammar.python.binary.lookup t = some ⟨.comparison op, 5, 4, 4⟩ := by
  have hall : ∀ p ∈ comparisons,
      Grammar.python.binary.lookup p.1 = some ⟨.comparison p.2, 5, 4, 4⟩ :=
    List.forall_iff_forall_mem.mp (by decide)
  exact hall (t, op) h

/-- If two lists of tokens pass one after the other, the first one passes. -/
theorem exists_of_foldlM_append {ts us : List Token} {marks marks' : List Bool}
    (h : (ts ++ us).foldlM mark? marks = some marks') :
    ∃ middle, ts.foldlM mark? marks = some middle ∧ us.foldlM mark? middle = some marks' := by
  rw [List.foldlM_append] at h
  exact Option.bind_eq_some_iff.mp h

/-- Without chains the tokens of the phrase are read by the grammar as well. -/
def Unchains : Phrase → List Token → Prop
  | .expression n a, ts => ∀ compared outer marks, ts.foldlM mark? (compared :: outer) = some marks →
      (∃ compared', marks = compared' :: outer ∧ (n ≤ 4 → compared' = compared)) ∧
        ∃ e, a = .ofExpression e ∧ Grammar.python.Reads (.expression n e) ts
  | .arguments as, ts => ∀ compared outer marks, ts.foldlM mark? (compared :: outer) = some marks →
      (∃ compared', marks = compared' :: outer) ∧
        ∃ es, as = Tree.ofExpressions es ∧ Grammar.python.Reads (.arguments es) ts
  | .comparisons ops bs, ts => ∀ compared outer marks,
      ts.foldlM mark? (compared :: outer) = some marks → compared = false ∧ marks = true :: outer ∧
        ∃ t op tb e, (t, op) ∈ comparisons ∧ ts = t :: tb ∧ ops = [op] ∧ bs = [.ofExpression e] ∧
          Grammar.python.Reads (.expression 4 e) tb

namespace Unchains

variable {a b c : Tree} {ta tb ts : List Token}

/-- An expression of one token. -/
theorem of_plain {n : Nat} {e : Expression} (ht : IsPlain t)
    (h : Grammar.python.Reads (.expression n e) [t]) :
    Unchains (.expression n (.ofExpression e)) [t] := by
  intro compared outer marks hmarks
  rw [foldlM_plain ht] at hmarks
  cases hmarks
  exact ⟨⟨compared, rfl, fun _ => rfl⟩, e, rfl, h⟩

/-- Brackets, with what is known of the tokens in them. -/
theorem of_brackets {as : List Token} {P : Prop} {marks : List Bool}
    (h : ∀ marks', as.foldlM mark? (false :: compared :: outer) = some marks' →
      (∃ compared', marks' = compared' :: compared :: outer) ∧ P)
    (hmarks : (opening :: (as ++ [closing])).foldlM mark? (compared :: outer) = some marks) :
    marks = compared :: outer ∧ P := by
  rw [List.foldlM_cons, mark?_opening] at hmarks
  obtain ⟨middle, hinner, hclosing⟩ := exists_of_foldlM_append hmarks
  obtain ⟨⟨compared', rfl⟩, hP⟩ := h middle hinner
  rw [List.foldlM_cons, mark?_closing] at hclosing
  cases hclosing
  exact ⟨rfl, hP⟩

/-- Brackets hide their marks, so what stands in them is judged on its own. -/
theorem parens (h : Unchains (.expression 8 a) ts) :
    Unchains (.expression 0 a) (opening :: (ts ++ [closing])) := by
  intro compared outer marks hmarks
  have hinner : ∀ marks', ts.foldlM mark? (false :: compared :: outer) = some marks' →
      (∃ compared', marks' = compared' :: compared :: outer) ∧
        ∃ e, a = .ofExpression e ∧ Grammar.python.Reads (.expression 8 e) ts := by
    intro marks' hmarks'
    obtain ⟨⟨compared', hcompared', -⟩, he⟩ := h false (compared :: outer) marks' hmarks'
    exact ⟨⟨compared', hcompared'⟩, he⟩
  obtain ⟨rfl, e, rfl, he⟩ := of_brackets hinner hmarks
  exact ⟨⟨compared, rfl, fun _ => rfl⟩, e, rfl, he.parens⟩

theorem call {f : List Char} {as : List Tree} (hf : f ∉ keywords) (h : Unchains (.arguments as) ts) :
    Unchains (.expression 0 (.call f as)) (.word f :: opening :: (ts ++ [closing])) := by
  intro compared outer marks hmarks
  rw [foldlM_plain (isPlain_word hf)] at hmarks
  obtain ⟨rfl, es, rfl, hes⟩ := of_brackets (h false (compared :: outer)) hmarks
  exact ⟨⟨compared, rfl, fun _ => rfl⟩, .call f es, rfl, .call (isName_iff.mpr hf) hes⟩

/-- An operator that binds tighter than comparisons. -/
theorem binary_plain {r : BinaryRule} (hr : Grammar.python.binary.lookup t = some r)
    (ht : IsPlain t) (hleft : r.left ≤ 4) (hright : r.right ≤ 4)
    (hc : ∀ x y, a = .ofExpression x → b = .ofExpression y → c = .ofExpression (.binary r.op x y))
    (ha : Unchains (.expression r.left a) ta) (hb : Unchains (.expression r.right b) tb) :
    Unchains (.expression r.level c) (ta ++ t :: tb) := by
  intro compared outer marks hmarks
  obtain ⟨middle, hta, hrest⟩ := exists_of_foldlM_append hmarks
  obtain ⟨⟨compared₁, rfl, hkept₁⟩, x, hx, hreadsx⟩ := ha compared outer middle hta
  rw [foldlM_plain ht] at hrest
  obtain ⟨⟨compared₂, rfl, hkept₂⟩, y, hy, hreadsy⟩ := hb compared₁ outer marks hrest
  exact ⟨⟨compared₂, rfl, fun _ => (hkept₂ hright).trans (hkept₁ hleft)⟩, .binary r.op x y,
    hc x y hx hy, .binary hr hreadsx hreadsy⟩

/-- An operator that binds looser than comparisons. -/
theorem binary_clear {r : BinaryRule} (hr : Grammar.python.binary.lookup t = some r)
    (ht : t ∈ [comma, Python.negation, conjunction, disjunction]) (hlevel : 4 < r.level)
    (hc : ∀ x y, a = .ofExpression x → b = .ofExpression y → c = .ofExpression (.binary r.op x y))
    (ha : Unchains (.expression r.left a) ta) (hb : Unchains (.expression r.right b) tb) :
    Unchains (.expression r.level c) (ta ++ t :: tb) := by
  intro compared outer marks hmarks
  obtain ⟨middle, hta, hrest⟩ := exists_of_foldlM_append hmarks
  obtain ⟨⟨compared₁, rfl, -⟩, x, hx, hreadsx⟩ := ha compared outer middle hta
  rw [foldlM_clear ht] at hrest
  obtain ⟨⟨compared₂, rfl, -⟩, y, hy, hreadsy⟩ := hb false outer marks hrest
  exact ⟨⟨compared₂, rfl, fun hle => absurd hle (Nat.not_le.mpr hlevel)⟩, .binary r.op x y,
    hc x y hx hy, .binary hr hreadsx hreadsy⟩

theorem minus (h : Unchains (.expression 2 a) ts) :
    Unchains (.expression 2 (.unary .minus a)) (Python.minus :: ts) := by
  intro compared outer marks hmarks
  rw [foldlM_plain (by decide)] at hmarks
  obtain ⟨⟨compared', rfl, hkept⟩, e, rfl, he⟩ := h compared outer marks hmarks
  exact ⟨⟨compared', rfl, hkept⟩, .unary .minus e, rfl, .unary (u := ⟨.minus, 2⟩) rfl he⟩

/-- A negation clears the mark before its operand. -/
theorem negation (h : Unchains (.expression 6 a) ts) :
    Unchains (.expression 6 (.unary .negation a)) (Python.negation :: ts) := by
  intro compared outer marks hmarks
  rw [foldlM_clear (by simp)] at hmarks
  obtain ⟨⟨compared', rfl, -⟩, e, rfl, he⟩ := h false outer marks hmarks
  exact ⟨⟨compared', rfl, fun hle => by omega⟩, .unary .negation e, rfl,
    .unary (u := ⟨.negation, 6⟩) rfl he⟩

/-- An operand sets no mark, so the operators after it are met with the mark that was there. -/
theorem comparison {ops : List ComparisonOp} {as : List Tree}
    (ha : Unchains (.expression 4 a) ta) (hs : Unchains (.comparisons ops as) ts) :
    Unchains (.expression 5 (.comparison a ops as)) (ta ++ ts) := by
  intro compared outer marks hmarks
  obtain ⟨middle, hta, hrest⟩ := exists_of_foldlM_append hmarks
  obtain ⟨⟨compared₁, rfl, -⟩, x, rfl, hx⟩ := ha compared outer middle hta
  obtain ⟨-, rfl, t, op, tb, y, ht, rfl, rfl, rfl, hy⟩ := hs compared₁ outer marks hrest
  exact ⟨⟨true, rfl, fun hle => by omega⟩, .binary (.comparison op) x y, rfl,
    .binary (r := ⟨.comparison op, 5, 4, 4⟩) (lookup_comparison ht) hx hy⟩

/-- What is known of a comparison and the operand after it. -/
theorem of_compared {op : ComparisonOp} (ht : (t, op) ∈ comparisons)
    (hb : Unchains (.expression 4 b) tb) {marks : List Bool}
    (hmarks : (t :: tb).foldlM mark? (compared :: outer) = some marks) :
    compared = false ∧ marks = true :: outer ∧
      ∃ e, b = .ofExpression e ∧ Grammar.python.Reads (.expression 4 e) tb := by
  rw [List.foldlM_cons, mark?_comparison ht] at hmarks
  cases compared with
  | true => cases hmarks
  | false =>
    obtain ⟨⟨compared', rfl, hkept⟩, he⟩ := hb true outer marks hmarks
    rw [hkept le_rfl]
    exact ⟨rfl, rfl, he⟩

/-- One operator with one operand is no chain. -/
theorem single {op : ComparisonOp} (ht : (t, op) ∈ comparisons)
    (hb : Unchains (.expression 4 b) tb) : Unchains (.comparisons [op] [b]) (t :: tb) := by
  intro compared outer marks hmarks
  obtain ⟨rfl, rfl, e, rfl, he⟩ := of_compared ht hb hmarks
  exact ⟨rfl, rfl, t, op, tb, e, ht, rfl, rfl, rfl, he⟩

/-- The second comparison of a chain is met with the mark of the first. -/
theorem chained {op : ComparisonOp} {ops : List ComparisonOp} {bs : List Tree}
    (ht : (t, op) ∈ comparisons) (hb : Unchains (.expression 4 b) tb)
    (hs : Unchains (.comparisons ops bs) ts) :
    Unchains (.comparisons (op :: ops) (b :: bs)) (t :: (tb ++ ts)) := by
  intro compared outer marks hmarks
  rw [← List.cons_append] at hmarks
  obtain ⟨middle, hfirst, hrest⟩ := exists_of_foldlM_append hmarks
  obtain ⟨rfl, rfl, -⟩ := of_compared ht hb hfirst
  obtain ⟨hmark, -⟩ := hs true outer marks hrest
  cases hmark

theorem noArguments {f : List Char} (hf : f ∉ keywords) :
    Unchains (.expression 0 (.call f [])) [.word f, opening, closing] := by
  intro compared outer marks hmarks
  rw [foldlM_plain (isPlain_word hf)] at hmarks
  cases hmarks
  exact ⟨⟨compared, rfl, fun _ => rfl⟩, .call f [], rfl, .noArguments (isName_iff.mpr hf)⟩

/-- What is free of chains at a level is so at a looser one. -/
theorem looser {n m : Nat} (h : Unchains (.expression n a) ts) (hnm : n ≤ m) :
    Unchains (.expression m a) ts := by
  intro compared outer marks hmarks
  obtain ⟨⟨compared', rfl, hkept⟩, e, rfl, he⟩ := h compared outer marks hmarks
  exact ⟨⟨compared', rfl, fun hle => hkept (hnm.trans hle)⟩, e, rfl, he.looser hnm⟩

theorem last (h : Unchains (.expression 8 a) ts) : Unchains (.arguments [a]) ts := by
  intro compared outer marks hmarks
  obtain ⟨⟨compared', rfl, -⟩, e, rfl, he⟩ := h compared outer marks hmarks
  exact ⟨⟨compared', rfl⟩, [e], rfl, he.last⟩

/-- The arguments of a call are judged one by one. -/
theorem further {as : List Tree} {us : List Token} (h : Unchains (.expression 8 a) ts)
    (hs : Unchains (.arguments as) us) : Unchains (.arguments (a :: as)) (ts ++ comma :: us) := by
  intro compared outer marks hmarks
  obtain ⟨middle, hts, hrest⟩ := exists_of_foldlM_append hmarks
  obtain ⟨⟨compared₁, rfl, -⟩, e, rfl, he⟩ := h compared outer middle hts
  rw [foldlM_clear (by simp)] at hrest
  obtain ⟨hlast, es, rfl, hes⟩ := hs false outer marks hrest
  exact ⟨hlast, e :: es, rfl, he.further hes⟩

end Unchains

/-- What Python reads without meeting a second comparison, the grammar reads as well. -/
theorem Reads.unchains {phrase : Phrase} {ts : List Token} (h : Reads phrase ts) :
    Unchains phrase ts := by
  induction h with
  | numeral h => exact .of_plain (isPlain_numeral _) (.numeral h)
  | name h => exact .of_plain (isPlain_word h) (.name (isName_iff.mpr h))
  | noArguments h => exact .noArguments h
  | call h _ ih => exact .call h ih
  | parens _ ih => exact .parens ih
  | power _ _ iha ihb =>
    refine .binary_plain (r := ⟨.arithmetic .power, 1, 0, 2⟩) rfl (by decide) (by decide) (by decide)
      ?_ iha ihb
    rintro x y rfl rfl
    rfl
  | minus _ ih => exact .minus ih
  | @product t op _ _ _ _ ht _ _ iha ihb =>
    refine .binary_plain (r := .leftward (.arithmetic op) 3) (lookup_product ht)
      (isPlain_arithmetic (List.mem_append_left _ ht)) (Nat.le_succ 3) (Nat.le_add_right 2 2) ?_ iha ihb
    rintro x y rfl rfl
    rfl
  | @sum t op _ _ _ _ ht _ _ iha ihb =>
    refine .binary_plain (r := .leftward (.arithmetic op) 4) (lookup_sum ht)
      (isPlain_arithmetic (List.mem_append_right _ ht)) le_rfl (Nat.le_succ 3) ?_ iha ihb
    rintro x y rfl rfl
    rfl
  | comparison _ _ iha ihs => exact .comparison iha ihs
  | negation _ ih => exact .negation ih
  | conjunction _ _ iha ihb =>
    refine .binary_clear (r := .leftward (.logic .and) 7) rfl (by decide) (by decide) ?_ iha ihb
    rintro x y rfl rfl
    rfl
  | disjunction _ _ iha ihb =>
    refine .binary_clear (r := .leftward (.logic .or) 8) rfl (by decide) (by decide) ?_ iha ihb
    rintro x y rfl rfl
    rfl
  | looser _ hnm ih => exact .looser ih hnm
  | last _ ih => exact .last ih
  | further _ _ ih ihs => exact .further ih ihs
  | compared ht _ ihb => exact .single ht ihb
  | chained ht _ _ ihb ihs => exact .chained ht ihb ihs

/-- **What the grammar without chains reads, Python reads as the same tree and as no other.** -/
theorem derives_iff {text : String} {e : Expression}
    (h : Language.python.Spells Grammar.python.loosest text e) (a : Tree) :
    Derives text a ↔ a = .ofExpression e := by
  obtain ⟨ts, hlexes, hreads⟩ := h.tokens
  constructor
  · rintro ⟨ts', hscan, hreads'⟩
    have hts : ts' = ts := by
      have hscan' : Lexicon.python.scan none text.toList = some ts := hlexes.scan_eq
      rw [hscan'] at hscan
      cases hscan
      rfl
    subst hts
    -- The tokens pass for the one reading, so the other one cannot hold a chain.
    obtain ⟨compared, hmarks, -⟩ := passes_of_grammar hreads false [] (.inr rfl)
    obtain ⟨-, e', rfl, he'⟩ := hreads'.unchains false [] _ hmarks
    rw [Grammar.Reads.unique he' hreads]
  · rintro rfl
    exact ⟨ts, hlexes.scan_eq, reads_of_grammar hreads⟩

end Python

end BlockCompiler
