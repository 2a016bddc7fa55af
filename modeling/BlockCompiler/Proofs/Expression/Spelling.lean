import BlockCompiler.Proofs.Expression.Grammar

/-!
# Spelling expressions

A language is made of its signs and its grammar.  A text derives an expression if the
tokens of the text can be read as the expression; since the grammar is unambiguous, it
derives at most one.

`Spells` is what generated text is proved by: the text is taken apart in the same way
wherever it stands, and its tokens can be read as the expression at a level.  The lemmas
follow the ways in which text is put together, and `derives_iff` turns the outcome into
what the text derives.
-/

namespace BlockCompiler

/-- The signs of a language and its grammar, whose operators are tokens of the language. -/
structure Language where
  lexicon : Lexicon
  grammar : Grammar
  unary : ∀ p ∈ grammar.unary, lexicon.token? p.1.spelling = some p.1
  binary : ∀ p ∈ grammar.binary, lexicon.token? p.1.spelling = some p.1

namespace Language

/-- The text can be read as the expression. -/
def Derives (l : Language) (text : String) (e : Expression) : Prop :=
  ∃ ts, l.lexicon.scan none text.toList = some ts ∧
    l.grammar.Reads (.expression l.grammar.loosest e) ts

/-- The text spells the expression, which stands at level `n`.  An equals sign at its beginning
would join a sign in front of the text. -/
structure Spells (l : Language) (n : Nat) (text : String) (e : Expression) : Prop where
  head : ∃ c tail, text.toList = c :: tail ∧ c ≠ '='
  tokens : ∃ ts, l.lexicon.Lexes text.toList ts ∧ l.grammar.Reads (.expression n e) ts

/-- The text spells the arguments of a call. -/
def SpellsArguments (l : Language) (text : String) (es : List Expression) : Prop :=
  ∃ ts, l.lexicon.Lexes text.toList ts ∧ l.grammar.Reads (.arguments es) ts

variable {l : Language} {n m : Nat} {text : String} {e : Expression}

namespace Spells

theorem isEmpty_eq_false (h : l.Spells n text e) : text.isEmpty = false := by
  obtain ⟨c, tail, htext, -⟩ := h.head
  rw [String.isEmpty_eq_false_iff]
  rintro rfl
  cases htext

theorem looser (h : l.Spells n text e) (hnm : n ≤ m) : l.Spells m text e := by
  obtain ⟨ts, hlexes, hreads⟩ := h.tokens
  exact ⟨h.head, ts, hlexes, hreads.looser hnm⟩

theorem numeral {ds : List Char} (hds : isDecimal ds = true) (htext : text.toList = ds) :
    l.Spells 0 text (.numeral ds) := by
  obtain ⟨c, tail, hcs, hc⟩ := Lexicon.decimal_head hds
  refine ⟨⟨c, tail, htext.trans hcs, ?_⟩, [.numeral ds], ?_, .numeral hds⟩
  · rintro rfl
    simp at hc
  · rw [htext]
    exact Lexicon.lexes_token (Lexicon.token?_numeral hds) (by simp)

theorem name {w : List Char} (hw : isWord w = true) (hname : l.grammar.IsName w)
    (htext : text.toList = w) : l.Spells 0 text (.name w) := by
  obtain ⟨c, tail, hcs, hc, -⟩ := Lexicon.isWord_parts hw
  refine ⟨⟨c, tail, htext.trans hcs, ?_⟩, [.word w], ?_, .name hname⟩
  · rintro rfl
    simp at hc
  · rw [htext]
    exact Lexicon.lexes_token (Lexicon.token?_word hw) (by simp)

theorem parens (h : l.Spells l.grammar.loosest text e) : l.Spells 0 ("(" ++ text ++ ")") e := by
  obtain ⟨ts, hlexes, hreads⟩ := h.tokens
  have htext : ("(" ++ text ++ ")").toList = '(' :: (text.toList ++ [')']) := by simp
  exact ⟨⟨_, _, htext, by decide⟩, _, htext ▸ hlexes.parens, hreads.parens⟩

theorem unary {t : Token} {u : UnaryRule} (hu : l.grammar.unary.lookup t = some u)
    (h : l.Spells u.level text e) {sign : String} (hsign : sign.toList = t.spelling)
    (hhead : t.spelling.head? ≠ some '=')
    (hnext : ∀ d tail, text.toList = d :: tail → l.lexicon.extend? t d = none) :
    l.Spells u.level (sign ++ text) (.unary u.op e) := by
  obtain ⟨ts, hlexes, hreads⟩ := h.tokens
  obtain ⟨d, tail, htext, -⟩ := h.head
  have htoken := l.unary (t, u) (Grammar.mem_of_lookup hu)
  have hboth : (sign ++ text).toList = t.spelling ++ text.toList := by simp [hsign]
  refine ⟨?_, t :: ts, ?_, .unary hu hreads⟩
  · rw [hboth]
    cases hspelling : t.spelling with
    | nil => simp [hspelling, Lexicon.token?] at htoken
    | cons c cs => exact ⟨c, _, rfl, by simpa [hspelling] using hhead⟩
  · rw [hboth]
    refine hlexes.token htoken (by simp [htext]) ?_
    intro d' hd'
    rw [htext] at hd'
    cases hd'
    exact hnext d tail htext

/-- An operator that is a word stands off from its operand. -/
theorem spacedUnary {t : Token} {u : UnaryRule} (hu : l.grammar.unary.lookup t = some u)
    (h : l.Spells u.level text e) {sign : String} (hsign : sign.toList = t.spelling ++ [' '])
    (hhead : t.spelling.head? ≠ some '=') :
    l.Spells u.level (sign ++ text) (.unary u.op e) := by
  obtain ⟨ts, hlexes, hreads⟩ := h.tokens
  have htoken := l.unary (t, u) (Grammar.mem_of_lookup hu)
  have hne : t ≠ .sign [] := by
    rintro rfl
    cases htoken
  have hboth : (sign ++ text).toList = t.spelling ++ ' ' :: text.toList := by simp [hsign]
  refine ⟨?_, t :: ts, ?_, .unary hu hreads⟩
  · rw [hboth]
    cases hspelling : t.spelling with
    | nil => simp [hspelling, Lexicon.token?] at htoken
    | cons c cs => exact ⟨c, _, rfl, by simpa [hspelling] using hhead⟩
  · rw [hboth]
    exact (Lexicon.lexes_token htoken hne).space hlexes

theorem binary {t : Token} {r : BinaryRule} (hr : l.grammar.binary.lookup t = some r)
    {a b : String} {ea eb : Expression} (ha : l.Spells r.left a ea) (hb : l.Spells r.right b eb)
    {sign : String} (hsign : sign.toList = t.spelling) :
    l.Spells r.level (a ++ " " ++ sign ++ " " ++ b) (.binary r.op ea eb) := by
  obtain ⟨ta, hlexesa, hreadsa⟩ := ha.tokens
  obtain ⟨tb, hlexesb, hreadsb⟩ := hb.tokens
  obtain ⟨c, tail, htext, hc⟩ := ha.head
  have htoken := l.binary (t, r) (Grammar.mem_of_lookup hr)
  have hne : t ≠ .sign [] := by
    rintro rfl
    cases htoken
  have hall : (a ++ " " ++ sign ++ " " ++ b).toList =
      a.toList ++ ' ' :: (t.spelling ++ ' ' :: b.toList) := by simp [hsign]
  refine ⟨⟨c, _, by rw [hall, htext]; rfl, hc⟩, ta ++ t :: tb, ?_, .binary hr hreadsa hreadsb⟩
  rw [hall]
  exact hlexesa.space ((Lexicon.lexes_token htoken hne).space hlexesb)

end Spells

/-! ## Calls -/

theorem SpellsArguments.single (h : l.Spells l.grammar.loosest text e) :
    l.SpellsArguments text [e] := by
  obtain ⟨ts, hlexes, hreads⟩ := h.tokens
  exact ⟨ts, hlexes, hreads.last⟩

theorem SpellsArguments.cons {rest : String} {es : List Expression}
    (h : l.Spells l.grammar.loosest text e) (hs : l.SpellsArguments rest es) :
    l.SpellsArguments (text ++ ", " ++ rest) (e :: es) := by
  obtain ⟨ts, hlexes, hreads⟩ := h.tokens
  obtain ⟨us, hlexess, hreadss⟩ := hs
  have htext : (text ++ ", " ++ rest).toList = text.toList ++ ',' :: ' ' :: rest.toList := by simp
  refine ⟨ts ++ .comma :: us, ?_, hreads.further hreadss⟩
  rw [htext]
  exact hlexes.comma hlexess

theorem spellsArguments_intercalate {texts : List String} {es : List Expression}
    (h : List.Forall₂ (l.Spells l.grammar.loosest) texts es) (hne : texts ≠ []) :
    l.SpellsArguments (", ".intercalate texts) es := by
  induction h with
  | nil => exact absurd rfl hne
  | cons h hs ih =>
    cases hs with
    | nil =>
      rw [String.intercalate_singleton]
      exact .single h
    | cons h' hs' =>
      rw [String.intercalate_cons_cons]
      exact .cons h (ih (by simp))

theorem Spells.call {f : List Char} (hf : l.lexicon.token? f = some (.word f))
    (hhead : f.head? ≠ some '=') (hname : l.grammar.IsName f) {function : String}
    (hfunction : function.toList = f) {texts : List String} {es : List Expression}
    (h : List.Forall₂ (l.Spells l.grammar.loosest) texts es) :
    l.Spells 0 (function ++ "(" ++ ", ".intercalate texts ++ ")") (.call f es) := by
  have hall : (function ++ "(" ++ ", ".intercalate texts ++ ")").toList =
      f ++ '(' :: ((", ".intercalate texts).toList ++ [')']) := by simp [hfunction]
  have hfirst : ∃ c tail, f ++ '(' :: ((", ".intercalate texts).toList ++ [')']) = c :: tail ∧
      c ≠ '=' := by
    cases f with
    | nil => cases hf
    | cons c cs => exact ⟨c, _, rfl, by simpa using hhead⟩
  refine ⟨hall ▸ hfirst, ?_⟩
  rw [hall]
  cases h with
  | nil => exact ⟨_, Lexicon.Lexes.call hf Lexicon.lexes_nil, .noArguments hname⟩
  | cons h hs =>
    obtain ⟨ts, hlexes, hreads⟩ := spellsArguments_intercalate (.cons h hs) (by simp)
    exact ⟨_, hlexes.call hf, .call hname hreads⟩

/-! ## What a text derives -/

theorem Spells.derives_iff (h : l.Spells l.grammar.loosest text e) (e' : Expression) :
    l.Derives text e' ↔ e' = e := by
  obtain ⟨ts, hlexes, hreads⟩ := h.tokens
  constructor
  · rintro ⟨ts', hscan, hreads'⟩
    rw [hlexes.scan_eq] at hscan
    cases hscan
    exact hreads'.unique hreads
  · rintro rfl
    exact ⟨ts, hlexes.scan_eq, hreads⟩

end Language

end BlockCompiler
