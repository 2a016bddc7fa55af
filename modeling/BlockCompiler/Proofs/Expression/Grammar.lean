import BlockCompiler.Blocks.Operator
import BlockCompiler.Proofs.Expression.Token

/-!
# The grammar of expressions

The second step of reading an expression makes a tree of its tokens.  The operators of
a language stand at levels: level 0 is that of numerals, names, calls and brackets, and
the higher the level, the looser an operator binds.  A `Grammar` gives the level of each
operator and of its operands, and `Reads` says which trees a list of tokens may be read
as.

A grammar has conditions on its levels, which make it unambiguous (`Reads.unique`).
The proof reads tokens from left to right with a stack of what is still open, in the way
of operator precedence: an operator takes from the stack all that binds tighter on its
left.
-/

namespace BlockCompiler

/-- The operators that stand in front of an expression. -/
inductive UnaryOp where
  | minus
  | negation
deriving DecidableEq, Repr

/-- The operators that stand between two expressions. -/
inductive BinaryOp where
  | arithmetic (op : ArithmeticOp)
  | comparison (op : ComparisonOp)
  | logic (op : LogicOp)
deriving DecidableEq, Repr

/-- Expressions as trees. -/
inductive Expression where
  | numeral (spelling : List Char)
  | name (word : List Char)
  | call (function : List Char) (arguments : List Expression)
  | unary (op : UnaryOp) (operand : Expression)
  | binary (op : BinaryOp) (left right : Expression)

/-- An operator in front of an operand of its own level. -/
structure UnaryRule where
  op : UnaryOp
  level : Nat
deriving DecidableEq, Repr

/-- An operator, its level and those of its operands. -/
structure BinaryRule where
  op : BinaryOp
  level : Nat
  left : Nat
  right : Nat
deriving DecidableEq, Repr

/-- An operator that associates to the left: its right operand must bind tighter. -/
def BinaryRule.leftward (op : BinaryOp) (level : Nat) : BinaryRule where
  op := op
  level := level
  left := level
  right := level - 1

namespace Token

/-- An opening bracket. -/
def opening : Token := .sign ['(']

/-- A closing bracket. -/
def closing : Token := .sign [')']

/-- A comma. -/
def comma : Token := .sign [',']

end Token

/-- The operators of a language by their tokens, and the level of an expression that may hold any
of them. -/
structure Grammar where
  unary : List (Token × UnaryRule)
  binary : List (Token × BinaryRule)
  loosest : Nat
  /-- Brackets, the comma and numerals are no operators. -/
  brackets : ∀ t ∈ [Token.opening, .closing, .comma], unary.lookup t = none ∧ binary.lookup t = none
  numerals : ∀ ds, unary.lookup (.numeral ds) = none
  left_le : ∀ p ∈ binary, p.2.left ≤ p.2.level
  right_le : ∀ p ∈ binary, p.2.right ≤ loosest
  /-- What follows an operand on the right of an operator does not come between the two. -/
  right_le_left : ∀ p ∈ binary, ∀ q ∈ binary, p.2.level ≤ q.2.left → p.2.right ≤ q.2.left
  /-- An operator inside the operand of another one does not take it over. -/
  unary_keeps : ∀ u ∈ unary, ∀ p ∈ binary, p.2.level ≤ u.2.level → p.2.left < u.2.level
  binary_keeps : ∀ q ∈ binary, ∀ p ∈ binary, p.2.level ≤ q.2.right → p.2.left < q.2.level
  /-- Words that cannot be names. -/
  reserved : List (List Char) := []

/-- What a list of tokens may be read as. -/
inductive Phrase where
  /-- An expression of a level. -/
  | expression (level : Nat) (e : Expression)
  /-- The arguments of a call, at least one. -/
  | arguments (es : List Expression)

namespace Grammar

open Token (opening closing comma)

/-- The word is no operator and not reserved. -/
def IsName (G : Grammar) (w : List Char) : Prop :=
  G.unary.lookup (.word w) = none ∧ G.binary.lookup (.word w) = none ∧ w ∉ G.reserved

/-- The tokens can be read as the phrase. -/
inductive Reads (G : Grammar) : Phrase → List Token → Prop
  | numeral {ds : List Char} (h : isDecimal ds = true) :
      Reads G (.expression 0 (.numeral ds)) [.numeral ds]
  | name {w : List Char} (h : G.IsName w) : Reads G (.expression 0 (.name w)) [.word w]
  | noArguments {f : List Char} (h : G.IsName f) :
      Reads G (.expression 0 (.call f [])) [.word f, opening, closing]
  | call {f : List Char} {es : List Expression} {ts : List Token} (h : G.IsName f)
      (hargs : Reads G (.arguments es) ts) :
      Reads G (.expression 0 (.call f es)) (.word f :: opening :: (ts ++ [closing]))
  | parens {e : Expression} {ts : List Token} (h : Reads G (.expression G.loosest e) ts) :
      Reads G (.expression 0 e) (opening :: (ts ++ [closing]))
  | unary {t : Token} {u : UnaryRule} {e : Expression} {ts : List Token}
      (ht : G.unary.lookup t = some u) (h : Reads G (.expression u.level e) ts) :
      Reads G (.expression u.level (.unary u.op e)) (t :: ts)
  | binary {t : Token} {r : BinaryRule} {a b : Expression} {ta tb : List Token}
      (ht : G.binary.lookup t = some r) (ha : Reads G (.expression r.left a) ta)
      (hb : Reads G (.expression r.right b) tb) :
      Reads G (.expression r.level (.binary r.op a b)) (ta ++ t :: tb)
  | looser {n m : Nat} {e : Expression} {ts : List Token} (h : Reads G (.expression n e) ts)
      (hnm : n ≤ m) : Reads G (.expression m e) ts
  | last {e : Expression} {ts : List Token} (h : Reads G (.expression G.loosest e) ts) :
      Reads G (.arguments [e]) ts
  | further {e : Expression} {es : List Expression} {ts us : List Token}
      (h : Reads G (.expression G.loosest e) ts) (hs : Reads G (.arguments es) us) :
      Reads G (.arguments (e :: es)) (ts ++ comma :: us)

/-! ## Reading from left to right -/

/-- What is open on the left of an expression. -/
inductive Frame where
  | unary (u : UnaryRule)
  | binary (left : Expression) (r : BinaryRule)
  | parens
  | call (function : List Char) (done : List Expression)

/-- What has been read since the last frame was opened.  A word may still turn out to be the name
of a function. -/
inductive Held where
  | nothing
  | word (w : List Char)
  | value (e : Expression)

/-- The expression that is held. -/
def Held.expression? : Held → Option Expression
  | nothing => none
  | word w => some (.name w)
  | value e => some e

/-- Takes the operators up to a level from the stack. -/
def reduce (m : Nat) : List Frame → Expression → List Frame × Expression
  | .unary u :: frames, e =>
    if u.level ≤ m then reduce m frames (.unary u.op e) else (.unary u :: frames, e)
  | .binary a r :: frames, e =>
    if r.level ≤ m then reduce m frames (.binary r.op a e) else (.binary a r :: frames, e)
  | frames, e => (frames, e)

/-- A token where an expression begins. -/
def begins? (G : Grammar) (frames : List Frame) (t : Token) : Option (List Frame × Held) :=
  if t = opening then some (.parens :: frames, .nothing)
  else if t = closing then
    match frames with
    | .call f [] :: rest => some (rest, .value (.call f []))
    | _ => none
  else
    match G.unary.lookup t, t with
    | some u, _ => some (.unary u :: frames, .nothing)
    | none, .numeral ds => some (frames, .value (.numeral ds))
    | none, .word w => some (frames, .word w)
    | none, .sign _ => none

/-- A token after an expression. -/
def follows? (G : Grammar) (frames : List Frame) (e : Expression) (t : Token) :
    Option (List Frame × Held) :=
  if t = closing then
    match reduce G.loosest frames e with
    | (.parens :: rest, e) => some (rest, .value e)
    | (.call f done :: rest, e) => some (rest, .value (.call f (done ++ [e])))
    | _ => none
  else if t = comma then
    match reduce G.loosest frames e with
    | (.call f done :: rest, e) => some (.call f (done ++ [e]) :: rest, .nothing)
    | _ => none
  else
    (G.binary.lookup t).map fun r =>
      let (rest, a) := reduce r.left frames e
      (.binary a r :: rest, .nothing)

/-- One token further. -/
def step? (G : Grammar) : List Frame × Held → Token → Option (List Frame × Held)
  | (frames, .nothing), t => G.begins? frames t
  | (frames, .word w), t =>
    if t = opening then some (.call w [] :: frames, .nothing) else G.follows? frames (.name w) t
  | (frames, .value e), t => G.follows? frames e t

/-- The expression that is held when all is read, if nothing is left open. -/
def finish? (G : Grammar) : List Frame × Held → Option Expression
  | (frames, held) => held.expression?.bind fun e =>
    match reduce G.loosest frames e with
    | ([], e) => some e
    | _ => none

/-- The expression that a list of tokens is read as. -/
def parse (G : Grammar) (ts : List Token) : Option Expression :=
  (ts.foldlM G.step? ([], .nothing)).bind G.finish?

variable {G : Grammar}

theorem mem_of_lookup {β : Type} {l : List (Token × β)} {t : Token} {b : β}
    (h : l.lookup t = some b) : (t, b) ∈ l := by
  obtain ⟨before, after, rfl, -⟩ := List.lookup_eq_some_iff.mp h
  simp

/-- Brackets and commas are no operators. -/
theorem ne_bracket_of_binary {t : Token} {r : BinaryRule} (h : G.binary.lookup t = some r) :
    t ≠ opening ∧ t ≠ closing ∧ t ≠ comma := by
  refine ⟨?_, ?_, ?_⟩ <;>
  · rintro rfl
    rw [(G.brackets _ (by simp)).2] at h
    cases h

theorem ne_bracket_of_unary {t : Token} {u : UnaryRule} (h : G.unary.lookup t = some u) :
    t ≠ opening ∧ t ≠ closing := by
  refine ⟨?_, ?_⟩ <;>
  · rintro rfl
    rw [(G.brackets _ (by simp)).1] at h
    cases h

/-! ## Steps -/

/-- Before an operand, a unary operator waits for it. -/
theorem step?_unary {t : Token} {u : UnaryRule} (h : G.unary.lookup t = some u)
    (frames : List Frame) : G.step? (frames, .nothing) t = some (.unary u :: frames, .nothing) := by
  obtain ⟨hopen, hclose⟩ := ne_bracket_of_unary h
  simp only [step?, begins?, if_neg hopen, if_neg hclose, h]

theorem step?_numeral (ds : List Char) (frames : List Frame) :
    G.step? (frames, .nothing) (.numeral ds) = some (frames, .value (.numeral ds)) := by
  simp [step?, begins?, opening, closing, G.numerals]

/-- A name is held back: a bracket after it would make it a call. -/
theorem step?_word {w : List Char} (h : G.IsName w) (frames : List Frame) :
    G.step? (frames, .nothing) (.word w) = some (frames, .word w) := by
  simp [step?, begins?, opening, closing, h.1]

/-- What is held becomes an operand as soon as no bracket comes. -/
theorem step?_held {held : Held} {x : Expression} (h : held.expression? = some x) {t : Token}
    (ht : t ≠ opening) (frames : List Frame) :
    G.step? (frames, held) t = G.follows? frames x t := by
  cases held with
  | nothing => cases h
  | word w =>
    cases h
    rw [step?, if_neg ht]
  | value e =>
    cases h
    rfl

/-- A binary operator takes over what binds tighter to its left. -/
theorem follows?_binary {t : Token} {r : BinaryRule} (h : G.binary.lookup t = some r)
    {frames rest : List Frame} {x a : Expression} (hreduce : reduce r.left frames x = (rest, a)) :
    G.follows? frames x t = some (.binary a r :: rest, .nothing) := by
  obtain ⟨-, hclose, hcomma⟩ := ne_bracket_of_binary h
  simp only [follows?, if_neg hclose, if_neg hcomma, h, hreduce, Option.map_some]

/-! ## Levels -/

/-- The frame on top of the stack is left alone by the operators of an expression of level `n`. -/
def Guards (G : Grammar) : List Frame → Nat → Prop
  | .unary u :: _, n => ∀ p ∈ G.binary, p.2.level ≤ n → p.2.left < u.level
  | .binary _ r :: _, n => ∀ p ∈ G.binary, p.2.level ≤ n → p.2.left < r.level
  | _, _ => True

/-- A frame that a level leaves alone is left alone by tighter ones. -/
theorem Guards.mono {frames : List Frame} {n m : Nat} (h : G.Guards frames m) (hnm : n ≤ m) :
    G.Guards frames n := by
  cases frames with
  | nil => trivial
  | cons frame frames =>
    cases frame with
    | unary u => exact fun p hp hle => h p hp (hle.trans hnm)
    | binary a r => exact fun p hp hle => h p hp (hle.trans hnm)
    | parens => trivial
    | call f done => trivial

/-- An operator of the level takes nothing from the stack. -/
theorem reduce_of_guards {frames : List Frame} {n : Nat} (h : G.Guards frames n)
    {p : Token × BinaryRule} (hp : p ∈ G.binary) (hle : p.2.level ≤ n) (e : Expression) :
    reduce p.2.left frames e = (frames, e) := by
  cases frames with
  | nil => rfl
  | cons frame frames =>
    cases frame with
    | unary u => rw [reduce, if_neg (Nat.not_le.mpr (h p hp hle))]
    | binary a r => rw [reduce, if_neg (Nat.not_le.mpr (h p hp hle))]
    | parens => rfl
    | call f done => rfl

/-- The level up to which some token takes operators from the stack. -/
def IsBound (G : Grammar) (m : Nat) : Prop :=
  m = G.loosest ∨ ∃ p ∈ G.binary, p.2.left = m

theorem right_le_of_isBound {p : Token × BinaryRule} (hp : p ∈ G.binary) {m : Nat}
    (hm : G.IsBound m) (hle : p.2.level ≤ m) : p.2.right ≤ m := by
  rcases hm with rfl | ⟨q, hq, rfl⟩
  · exact G.right_le p hp
  · exact G.right_le_left p hp q hq hle

/-! ## Every reading is found -/

/-- Reading the tokens leaves an expression held that comes out, together with what was opened
meanwhile, as the one of the phrase. -/
def Finds (G : Grammar) : Phrase → List Token → Prop
  | .expression n e, ts => ∀ frames, G.Guards frames n → ∃ frames' held x,
      ts.foldlM G.step? (frames, .nothing) = some (frames', held) ∧ held.expression? = some x ∧
        ∀ m, G.IsBound m → n ≤ m → reduce m frames' x = reduce m frames e
  | .arguments es, ts => ∀ f done frames,
      (ts ++ [closing]).foldlM G.step? (.call f done :: frames, .nothing) =
        some (frames, .value (.call f (done ++ es)))

namespace Finds

/-- An expression that is complete at once. -/
theorem of_held {ts : List Token} {e : Expression} {n : Nat}
    (h : ∀ frames, ∃ held, ts.foldlM G.step? (frames, .nothing) = some (frames, held) ∧
      held.expression? = some e) : G.Finds (.expression n e) ts := by
  intro frames _
  obtain ⟨held, hfold, hheld⟩ := h frames
  exact ⟨frames, held, e, hfold, hheld, fun _ _ _ => rfl⟩

/-- A bracket or a comma that comes next finds the expression complete. -/
theorem foldlM_concat {ts : List Token} {e : Expression} (h : G.Finds (.expression G.loosest e) ts)
    (frames : List Frame) (hguards : G.Guards frames G.loosest)
    (hreduce : reduce G.loosest frames e = (frames, e)) {t : Token} (ht : t = closing ∨ t = comma) :
    ∃ frames' x, (ts ++ [t]).foldlM G.step? (frames, .nothing) = G.follows? frames' x t ∧
      reduce G.loosest frames' x = (frames, e) := by
  obtain ⟨frames', held, x, hfold, hheld, hfinal⟩ := h frames hguards
  refine ⟨frames', x, ?_, ?_⟩
  · have hopen : t ≠ opening := by
      rcases ht with rfl | rfl <;> decide
    rw [List.foldlM_append, hfold]
    simp [step?_held hheld hopen]
  · rw [hfinal _ (Or.inl rfl) le_rfl, hreduce]

/-- An expression in brackets is found at every level. -/
theorem parens {ts : List Token} {e : Expression} {n : Nat}
    (h : G.Finds (.expression G.loosest e) ts) :
    G.Finds (.expression n e) (opening :: (ts ++ [closing])) := by
  refine of_held fun frames => ⟨.value e, ?_, rfl⟩
  obtain ⟨frames', x, hfold, hreduce⟩ :=
    h.foldlM_concat (.parens :: frames) trivial rfl (Or.inl rfl)
  have hopen : G.step? (frames, .nothing) opening = some (.parens :: frames, .nothing) := rfl
  rw [List.foldlM_cons, hopen, Option.bind_eq_bind, Option.bind_some, hfold, follows?, if_pos rfl,
    hreduce]

/-- A call is found with all its arguments. -/
theorem call {f : List Char} {es : List Expression} {ts : List Token} {n : Nat} (hf : G.IsName f)
    (h : G.Finds (.arguments es) ts) :
    G.Finds (.expression n (.call f es)) (.word f :: opening :: (ts ++ [closing])) := by
  refine of_held fun frames => ⟨.value (.call f es), ?_, rfl⟩
  have hopen : G.step? (frames, .word f) opening = some (.call f [] :: frames, .nothing) := rfl
  rw [List.foldlM_cons, step?_word hf, Option.bind_eq_bind, Option.bind_some, List.foldlM_cons,
    hopen, Option.bind_eq_bind, Option.bind_some]
  exact h f [] frames

/-- The operand of a unary operator is found behind it. -/
theorem unary {t : Token} {u : UnaryRule} {e : Expression} {ts : List Token}
    (ht : G.unary.lookup t = some u) (h : G.Finds (.expression u.level e) ts) :
    G.Finds (.expression u.level (.unary u.op e)) (t :: ts) := by
  intro frames _
  have hguards : G.Guards (.unary u :: frames) u.level := G.unary_keeps (t, u) (mem_of_lookup ht)
  obtain ⟨frames', held, x, hfold, hheld, hfinal⟩ := h (.unary u :: frames) hguards
  refine ⟨frames', held, x, ?_, hheld, fun m hm hle => ?_⟩
  · rw [List.foldlM_cons, step?_unary ht]
    exact hfold
  · rw [hfinal m hm hle, reduce, if_pos hle]

/-- The operands of a binary operator are found on its sides, by the levels of its rule. -/
theorem binary {t : Token} {r : BinaryRule} {a b : Expression} {ta tb : List Token}
    (ht : G.binary.lookup t = some r) (ha : G.Finds (.expression r.left a) ta)
    (hb : G.Finds (.expression r.right b) tb) :
    G.Finds (.expression r.level (.binary r.op a b)) (ta ++ t :: tb) := by
  intro frames hguards
  have hr := mem_of_lookup ht
  -- On the left: the operator takes all that was opened since, and the stack is as before.
  obtain ⟨frames₁, held₁, x₁, hfold₁, hheld₁, hfinal₁⟩ :=
    ha frames (hguards.mono (G.left_le (t, r) hr))
  have hleft : reduce r.left frames₁ x₁ = (frames, a) := by
    rw [hfinal₁ r.left (Or.inr ⟨(t, r), hr, rfl⟩) le_rfl]
    exact reduce_of_guards hguards hr le_rfl a
  have hstep : G.step? (frames₁, held₁) t = some (.binary a r :: frames, .nothing) := by
    rw [step?_held hheld₁ (ne_bracket_of_binary ht).1, follows?_binary ht hleft]
  -- On the right: whatever takes this operator from the stack takes the operand first.
  have hguards₂ : G.Guards (.binary a r :: frames) r.right := G.binary_keeps (t, r) hr
  obtain ⟨frames₂, held₂, x₂, hfold₂, hheld₂, hfinal₂⟩ := hb _ hguards₂
  refine ⟨frames₂, held₂, x₂, ?_, hheld₂, fun m hm hle => ?_⟩
  · rw [List.foldlM_append, hfold₁, Option.bind_eq_bind, Option.bind_some, List.foldlM_cons, hstep]
    exact hfold₂
  · rw [hfinal₂ m hm (right_le_of_isBound hr hm hle), reduce, if_pos hle]

theorem last {ts : List Token} {e : Expression} (h : G.Finds (.expression G.loosest e) ts) :
    G.Finds (.arguments [e]) ts := by
  intro f done frames
  obtain ⟨frames', x, hfold, hreduce⟩ :=
    h.foldlM_concat (.call f done :: frames) trivial rfl (Or.inl rfl)
  rw [hfold, follows?, if_pos rfl, hreduce]

/-- A comma ends one argument and begins the next. -/
theorem further {ts us : List Token} {e : Expression} {es : List Expression}
    (h : G.Finds (.expression G.loosest e) ts) (hs : G.Finds (.arguments es) us) :
    G.Finds (.arguments (e :: es)) (ts ++ comma :: us) := by
  intro f done frames
  obtain ⟨frames', x, hfold, hreduce⟩ :=
    h.foldlM_concat (.call f done :: frames) trivial rfl (Or.inr rfl)
  have hcomma : (ts ++ [comma]).foldlM G.step? (.call f done :: frames, .nothing) =
      some (.call f (done ++ [e]) :: frames, .nothing) := by
    rw [hfold, follows?, if_neg (by decide), if_pos rfl, hreduce]
  have hsplit : ts ++ comma :: us ++ [closing] = (ts ++ [comma]) ++ (us ++ [closing]) := by simp
  rw [hsplit, List.foldlM_append, hcomma, Option.bind_eq_bind, Option.bind_some,
    hs f (done ++ [e]) frames]
  simp

end Finds

/-- What can be read is found, whatever stands around it. -/
theorem Reads.finds {phrase : Phrase} {ts : List Token} (h : G.Reads phrase ts) :
    G.Finds phrase ts := by
  induction h with
  | numeral _ => exact Finds.of_held fun frames => ⟨.value _, by simp [step?_numeral], rfl⟩
  | name h => exact Finds.of_held fun frames => ⟨.word _, by simp [step?_word h], rfl⟩
  | noArguments h =>
    refine Finds.of_held fun frames => ⟨.value _, ?_, rfl⟩
    rw [List.foldlM_cons, step?_word h]
    rfl
  | call hf _ ih => exact Finds.call hf ih
  | parens _ ih => exact Finds.parens ih
  | unary ht _ ih => exact Finds.unary ht ih
  | binary ht _ _ iha ihb => exact Finds.binary ht iha ihb
  | looser _ hnm ih =>
    intro frames hguards
    obtain ⟨frames', held, x, hfold, hheld, hfinal⟩ := ih frames (hguards.mono hnm)
    exact ⟨frames', held, x, hfold, hheld, fun m hm hle => hfinal m hm (hnm.trans hle)⟩
  | last _ ih => exact Finds.last ih
  | further _ _ ih ihs => exact Finds.further ih ihs

/-- A word in what is read is an operator or a name. -/
theorem Reads.word_cases {phrase : Phrase} {ts : List Token} (h : G.Reads phrase ts) {w : List Char}
    (hw : .word w ∈ ts) :
    G.IsName w ∨ G.unary.lookup (.word w) ≠ none ∨ G.binary.lookup (.word w) ≠ none := by
  induction h with
  | numeral _ => simp at hw
  | name h =>
    cases List.mem_singleton.mp hw
    exact Or.inl h
  | noArguments h =>
    simp only [opening, closing, List.mem_cons, Token.word.injEq, reduceCtorEq, List.not_mem_nil,
      or_false] at hw
    exact Or.inl (hw ▸ h)
  | call h _ ih =>
    simp only [opening, closing, List.mem_cons, Token.word.injEq, reduceCtorEq, List.mem_append,
      List.not_mem_nil, or_false, false_or] at hw
    rcases hw with rfl | hw
    · exact Or.inl h
    · exact ih hw
  | parens _ ih => exact ih (by simpa [opening, closing] using hw)
  | unary ht _ ih =>
    rcases List.mem_cons.mp hw with rfl | hw
    · exact Or.inr (Or.inl (by simp [ht]))
    · exact ih hw
  | binary ht _ _ iha ihb =>
    rcases List.mem_append.mp hw with hw | hw
    · exact iha hw
    · rcases List.mem_cons.mp hw with rfl | hw
      · exact Or.inr (Or.inr (by simp [ht]))
      · exact ihb hw
  | looser _ _ ih | last _ ih => exact ih hw
  | further _ _ ih ihs =>
    rcases List.mem_append.mp hw with hw | hw
    · exact ih hw
    · exact ihs (by simpa [comma] using hw)

/-- So the parser comes to the tree that can be read. -/
theorem parse_eq_some_of_reads {ts : List Token} {e : Expression}
    (h : G.Reads (.expression G.loosest e) ts) : G.parse ts = some e := by
  obtain ⟨frames, held, x, hfold, hheld, hfinal⟩ := h.finds [] trivial
  have hreduce : reduce G.loosest frames x = ([], e) := hfinal _ (Or.inl rfl) le_rfl
  rw [parse, hfold, Option.bind_some, finish?, hheld, Option.bind_some, hreduce]

/-- **A grammar is unambiguous.** -/
theorem Reads.unique {ts : List Token} {e e' : Expression}
    (h : G.Reads (.expression G.loosest e) ts) (h' : G.Reads (.expression G.loosest e') ts) :
    e = e' := by
  have heq := parse_eq_some_of_reads h
  rw [parse_eq_some_of_reads h'] at heq
  cases heq
  rfl

end Grammar

end BlockCompiler
