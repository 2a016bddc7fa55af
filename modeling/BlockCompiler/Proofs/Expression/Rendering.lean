import BlockCompiler.Proofs.Expression.Spelling
import BlockCompiler.Proofs.Expression.Tree
import BlockCompiler.Proofs.Generation.Results
import Mathlib.Data.List.Forall2

/-!
# From blocks to spelled expressions

Blocks are generated with an order, and an operand is put into brackets unless its order
is below that of its place.  A `Rendition` says at which levels of the grammar the orders
of a target stand; then what fits into a place by its order fits there by its level
(`Spells.parenthesize`), and a slot is spelled right if its block is (`exists_slot`).
-/

namespace BlockCompiler

/-! ## Words -/

theorem isWordChar_symbolChar (c : Char) : isWordChar (Text.symbolChar c) = true := by
  rw [Text.symbolChar, isWordChar]
  split
  · rename_i h
    rw [h]
    rfl
  · rfl

/-- What becomes of a text chosen by the author of a program is a word. -/
theorem isWord_identifier (raw : String) {fallback : String} (h : isWord fallback.toList = true) :
    isWord (Text.identifier raw fallback).toList = true := by
  have hsuffix : ∀ c ∈ (Text.suffix raw).toList, isWordChar c = true := by
    intro c hc
    simp only [Text.suffix, Text.symbol, String.toList_map, List.mem_map] at hc
    obtain ⟨d, -, rfl⟩ := hc
    exact isWordChar_symbolChar d
  rw [Text.identifier]
  split
  · exact h
  · rename_i c rest heq
    rw [heq] at hsuffix
    have hc := hsuffix c List.mem_cons_self
    have hrest := List.all_eq_true.mpr fun d hd => hsuffix d (List.mem_cons_of_mem c hd)
    rw [String.toList_ofList]
    split
    · exact List.all_eq_true.mpr hsuffix
    · rename_i hdigit
      rw [isWord, hrest, Bool.and_true]
      simpa [isWordChar, Char.isAlphanum, hdigit] using hc

theorem isWord_nameField (n : Node) (field : String) {fallback : String}
    (h : isWord fallback.toList = true) :
    isWord (Blocks.nameField n field fallback).toList = true :=
  isWord_identifier _ h

/-! ## Operators -/

theorem chosen_arithmetic (field : String) :
    chosen ArithmeticOp.named .add field = (ArithmeticOp.ofField? field).getD .add := by
  simp only [chosen, ArithmeticOp.named, Dict.lookup_cons_ite]
  fun_cases ArithmeticOp.ofField? field <;> simp_all

theorem chosen_comparison (field : String) :
    chosen ComparisonOp.named .equal field = ComparisonOp.ofField field := by
  simp only [chosen, ComparisonOp.named, Dict.lookup_cons_ite]
  fun_cases ComparisonOp.ofField field <;> simp_all
  split <;> rfl

theorem chosen_logic (field : String) :
    chosen LogicOp.named .and field = LogicOp.ofField field := by
  simp only [chosen, LogicOp.named, Dict.lookup_cons_ite]
  fun_cases LogicOp.ofField field <;> simp_all
  split <;> rfl

/-! ## Places -/

/-- The language of a target, what the blocks stand for in it, and the levels of the orders that
expressions are generated with. -/
structure Rendition where
  language : Language
  dialect : Dialect
  levels : List (Order × Nat)
  /-- No generated expression is as loose as a place that takes anything. -/
  tight : ∀ p ∈ levels, p.1 < Order.loosest ∧ p.2 ≤ language.grammar.loosest

namespace Rendition

variable {R : Rendition}

/-- What is put into a place of order `outer` without brackets stands at level `m` or below. -/
def Fits (R : Rendition) (outer : Order) (m : Nat) : Prop :=
  outer ≠ Order.atomic ∧ ∀ p ∈ R.levels, p.1 < outer → p.2 ≤ m

instance (outer : Order) (m : Nat) : Decidable (R.Fits outer m) :=
  inferInstanceAs (Decidable (_ ∧ _))

theorem fits_loosest (R : Rendition) : R.Fits Order.loosest R.language.grammar.loosest :=
  ⟨by decide, fun p hp _ => (R.tight p hp).2⟩

theorem spells_parenthesize {text : String} {e : Expression} {inner outer : Order} {n m : Nat}
    (h : R.language.Spells n text e) (hinner : (inner, n) ∈ R.levels) (hfits : R.Fits outer m) :
    R.language.Spells m (parenthesize text inner outer) e := by
  obtain ⟨htight, hn⟩ := R.tight (inner, n) hinner
  rw [parenthesize]
  by_cases hlt : inner < outer
  · have hbare : (outer ≤ inner && !(inner == outer && (outer == Order.atomic ||
        outer == Order.loosest))) = false := by
      simp [Nat.not_le.mpr hlt]
    rw [hbare]
    exact h.looser (hfits.2 (inner, n) hinner hlt)
  · -- Two orders that are equal go without brackets only at the ends, and neither end is met here.
    have hbrackets : (outer ≤ inner && !(inner == outer && (outer == Order.atomic ||
        outer == Order.loosest))) = true := by
      have hne : inner = outer → outer ≠ Order.loosest := by
        rintro rfl
        exact Nat.ne_of_lt htight
      have hle := Nat.le_of_not_lt hlt
      simp only [hle, decide_true, Bool.true_and, Bool.not_eq_true', Bool.and_eq_false_iff,
        beq_eq_false_iff_ne, Bool.or_eq_false_iff]
      by_cases heq : inner = outer
      · exact Or.inr ⟨hfits.1, hne heq⟩
      · exact Or.inl heq
    rw [hbrackets]
    exact (h.looser hn).parens.looser (Nat.zero_le m)

/-- On every run the block is generated as a text that spells the expression at the level of its
order. -/
def Renders (R : Rendition) (j : Job) (i : NodeId) (e : Expression) : Prop :=
  ∃ text order n, j.Yields (Script.generate i) (.expression text order) ∧
    (order, n) ∈ R.levels ∧ R.language.Spells n text e

/-- The block has a tree and is generated as it. -/
def Settles (R : Rendition) (j : Job) (i : NodeId) : Prop :=
  ∃ e, j.graph.Denotes R.dialect (.block i) e ∧ R.Renders j i e

/-- All blocks in the value slots of a node are generated as their trees. -/
def SettlesSlots (R : Rendition) (j : Job) (o : NodeId) : Prop :=
  ∀ name c, (j.graph.node o).values.get? name = some c → R.Settles j c

variable {j : Job} {o : NodeId} {fallback : String} {unfilled : Expression}

/-- A slot is generated as a text that spells its tree, if that is so of the block in it. -/
theorem exists_slot (hslots : R.SettlesSlots j o)
    (hfallback : R.language.Spells 0 fallback unfilled) {outer : Order} {m : Nat}
    (hfits : R.Fits outer m) (name : String) :
    ∃ e text, j.graph.Denotes R.dialect (.slot o ⟨name, unfilled⟩) e ∧
      j.Yields (j.valueCode (j.node o) name outer fallback) text ∧ R.language.Spells m text e := by
  cases hslot : (j.graph.node o).values.get? name with
  | none =>
    exact ⟨unfilled, fallback, .unfilled hslot, Job.yields_valueCode_of_none hslot,
      hfallback.looser (Nat.zero_le m)⟩
  | some c =>
    obtain ⟨e, hdenotes, text, order, n, hyields, hlevel, hspells⟩ := hslots name c hslot
    exact ⟨e, parenthesize text order outer, .filled hslot hdenotes,
      Job.yields_valueCode_of_some hslot hyields hspells.isEmpty_eq_false,
      spells_parenthesize hspells hlevel hfits⟩

/-! ## Kinds of expressions -/

/-- The sign and the order that an operator is generated with agree with the grammar. -/
def Writes (R : Rendition) (op : BinaryOp) (sign : String) (order : Order) : Prop :=
  ∃ t r, R.language.grammar.binary.lookup t = some r ∧ r.op = op ∧ sign.toList = t.spelling ∧
    (order, r.level) ∈ R.levels ∧ R.Fits order r.left ∧ R.Fits order r.right

theorem exists_binary (hslots : R.SettlesSlots j o)
    (hfallback : R.language.Spells 0 fallback unfilled) {op : BinaryOp} {sign : String}
    {order : Order} (hop : R.Writes op sign order) :
    ∃ a b text n, j.graph.Denotes R.dialect (.slot o ⟨"A", unfilled⟩) a ∧
      j.graph.Denotes R.dialect (.slot o ⟨"B", unfilled⟩) b ∧
      j.Yields (Blocks.binary j (j.node o) sign order fallback) (.expression text order) ∧
      (order, n) ∈ R.levels ∧ R.language.Spells n text (.binary op a b) := by
  obtain ⟨t, r, hr, rfl, hsign, hlevel, hleft, hright⟩ := hop
  obtain ⟨a, ta, hdenotesa, hyieldsa, hspellsa⟩ := exists_slot hslots hfallback hleft "A"
  obtain ⟨b, tb, hdenotesb, hyieldsb, hspellsb⟩ := exists_slot hslots hfallback hright "B"
  exact ⟨a, b, _, r.level, hdenotesa, hdenotesb,
    hyieldsa.bind (hyieldsb.bind (Job.yields_pure _)), hlevel, .binary hr hspellsa hspellsb hsign⟩

theorem exists_call {t : Target} (hslots : R.SettlesSlots j o)
    (hfallback : R.language.Spells 0 t.noArgument R.dialect.noArgument)
    (hname : R.language.grammar.IsName (Blocks.nameField (j.node o) "NAME" "do_something").toList) :
    ∃ arg text, (∀ slot ∈ R.dialect.argumentSlots (j.node o),
        j.graph.Denotes R.dialect (.slot o slot) (arg slot)) ∧
      j.Yields (Blocks.call t j (j.node o)) text ∧
      R.language.Spells 0 text
        (.call (Blocks.nameField (j.node o) "NAME" "do_something").toList
          ((R.dialect.argumentSlots (j.node o)).map arg)) := by
  -- A tree and a text for every slot name, so that the arguments are images of one list.
  choose e text hdenotes hyields hspells using exists_slot hslots hfallback R.fits_loosest
  have harguments : j.Yields (Blocks.arguments t j (j.node o))
      ((List.range ((j.node o).slotCount ["ARG"])).map fun k => text ("ARG" ++ k.repr)) :=
    Job.Yields.mapM fun k _ => hyields _
  refine ⟨fun slot => e slot.name, _, ?_, harguments.bind (Job.yields_pure _), ?_⟩
  · intro slot hslot
    obtain ⟨k, -, rfl⟩ := List.mem_map.mp hslot
    exact hdenotes _
  · have hword : isWord (Blocks.nameField (j.node o) "NAME" "do_something").toList = true :=
      isWord_nameField _ _ (by decide)
    refine .call (Lexicon.token?_word hword) (Lexicon.head?_ne_of_isWord hword) hname rfl ?_
    rw [Dialect.argumentSlots, List.map_map, List.forall₂_map_left_iff, List.forall₂_map_right_iff]
    exact List.forall₂_same.mpr fun k _ => hspells _

/-- A minus in front of a numeral is an operator, and the generated order agrees with that. -/
def WritesMinus (R : Rendition) (order : Order) : Prop :=
  ∃ u, R.language.grammar.unary.lookup (.sign ['-']) = some u ∧ u.op = .minus ∧
    (order, u.level) ∈ R.levels ∧
    ∀ c, c.isDigit = true ∨ c = '.' → R.language.lexicon.extend? (.sign ['-']) c = none

theorem exists_number {t : Target} (hminus : R.WritesMinus (t.order .sign))
    (hatomic : (Order.atomic, 0) ∈ R.levels) {n : Node}
    (hnumber : isNumber (Text.trim (n.fieldOr "NUM" "0")).toList = true) :
    ∃ text order level, Blocks.number t n = .expression text order ∧ (order, level) ∈ R.levels ∧
      R.language.Spells level text (.signed (Text.trim (n.fieldOr "NUM" "0")).toList) := by
  simp only [Blocks.number]
  generalize Text.trim (n.fieldOr "NUM" "0") = text at hnumber ⊢
  by_cases hsign : ∃ ds, text.toList = '-' :: ds
  · -- The minus is an operator in front of what remains, not a part of the numeral.
    obtain ⟨ds, hds⟩ := hsign
    obtain ⟨u, hu, hop, hlevel, hnext⟩ := hminus
    rw [hds] at hnumber
    have hdigits : R.language.Spells 0 (String.ofList ds) (.numeral ds) :=
      .numeral hnumber String.toList_ofList
    have htext : "-" ++ String.ofList ds = text := by
      apply String.toList_injective
      simp [hds]
    have hspells : R.language.Spells u.level ("-" ++ String.ofList ds) (.unary u.op (.numeral ds)) := by
      refine (hdigits.looser (Nat.zero_le u.level)).unary hu rfl (by decide) fun c tail hc => ?_
      obtain ⟨d, rest, hdrest, hd⟩ := Lexicon.decimal_head hnumber
      rw [String.toList_ofList, hdrest] at hc
      obtain ⟨rfl, -⟩ := List.cons.inj hc
      exact hnext _ hd
    rw [htext, hop] at hspells
    refine ⟨text, t.order .sign, u.level, by simp [hds], hlevel, ?_⟩
    rw [hds]
    exact hspells
  · have hplain : text.toList.head? ≠ some '-' := by
      intro hhead
      cases hcs : text.toList with
      | nil => simp [hcs] at hhead
      | cons c ds => exact hsign ⟨ds, by simpa [hcs] using hhead⟩
    have hsigned : Expression.signed text.toList = .numeral text.toList := by
      rw [Expression.signed]
      exact fun ds hds => hsign ⟨ds, hds⟩
    have hdecimal : isDecimal text.toList = true := by
      rwa [isNumber] at hnumber
      exact fun ds hds => hsign ⟨ds, hds⟩
    rw [hsigned]
    exact ⟨text, Order.atomic, 0, by simp [hplain], hatomic, .numeral hdecimal rfl⟩

end Rendition

end BlockCompiler
